import LambdaSyntax.Proofs.Groups

/-!
Dots are another way to write brackets.

`undotted` writes a line without dots: each dot becomes an opening bracket with a space behind it,
and as many closing brackets are added at the end. The two lines differ in what is reported about
them, since positions move, but not in their tokens. The scans of the two lines go in step: they
have emitted the same tokens, and what is pending differs at most in its position (`Scan.Alike`).

* `Scan.run_expanded`: the simulation, for any two scans that start alike.
* `nests_undotted`: the brackets of the line without dots nest.
* `tokenize_undotted`: the line without dots has the same tokens.
-/

namespace LambdaSyntax

/-- A character as it is written without dots. -/
def expand (c : Char) : List Char :=
  if c = '.' then ['(', ' '] else [c]

/-- A line written without dots. -/
def undotted (line : List Char) : List Char :=
  line.flatMap expand ++ List.replicate (line.count '.') ')'

theorem expand_of_ne {c : Char} (h : c ≠ '.') : expand c = [c] := if_neg h

/-! ### What is pending, apart from its position -/

namespace Pending

/-- What is pending, with its position left out. -/
def shape : Pending → Pending
  | .lambda _ => .lambda 0
  | .bracket _ => .bracket 0
  | p => p

@[simp] theorem awaitsParameter_shape (p : Pending) :
    p.shape.awaitsParameter = p.awaitsParameter := by
  cases p <;> rfl

@[simp] theorem atBracket_shape (p : Pending) : p.shape.atBracket = p.atBracket := by
  cases p <;> rfl

@[simp] theorem inName_shape (p : Pending) : p.shape.inName = p.inName := by
  cases p <;> rfl

@[simp] theorem endsName_shape (p : Pending) : p.shape.endsName = p.endsName := by
  cases p <;> rfl

@[simp] theorem flush_shape (p : Pending) : p.shape.flush = p.flush := by
  cases p <;> rfl

/-- **Reading does not depend on positions.** -/
theorem Reads.alike {position position' : Nat} {p p' next : Pending} {c : Char}
    {tokens : List Token} (h : Reads position p c tokens next) (hp : p.shape = p'.shape) :
    ∃ next', Reads position' p' c tokens next' ∧ next.shape = next'.shape := by
  have hidle : p.awaitsParameter = p'.awaitsParameter := by
    rw [← awaitsParameter_shape p, hp, awaitsParameter_shape]
  have hbracket : p.atBracket = p'.atBracket := by rw [← atBracket_shape p, hp, atBracket_shape]
  have hname : p.inName = p'.inName := by rw [← inName_shape p, hp, inName_shape]
  have hends : p.endsName = p'.endsName := by rw [← endsName_shape p, hp, endsName_shape]
  have hflush : p.flush = p'.flush := by rw [← flush_shape p, hp, flush_shape]
  cases h with
  | parameter letter =>
      obtain ⟨backslash, rfl⟩ : ∃ backslash, p' = .lambda backslash := by
        cases p' <;> simp_all [shape]
      exact ⟨_, .parameter letter, rfl⟩
  | @continues reversed c word =>
      obtain rfl : p' = .name reversed := by
        cases p' <;> simp_all [shape]
      exact ⟨_, .continues word, rfl⟩
  | backslash idle =>
      rw [hflush]
      exact ⟨_, .backslash (hidle ▸ idle), rfl⟩
  | blank idle blank =>
      rw [hflush]
      exact ⟨_, .blank (hidle ▸ idle) blank, rfl⟩
  | dot behind =>
      rw [hflush]
      exact ⟨_, .dot (hends ▸ behind), rfl⟩
  | opening idle =>
      rw [hflush]
      exact ⟨_, .opening (hidle ▸ idle), rfl⟩
  | closing idle apart =>
      rw [hflush]
      exact ⟨_, .closing (hidle ▸ idle) (hbracket ▸ apart), rfl⟩
  | letter idle fresh letter =>
      exact ⟨_, .letter (hidle ▸ idle) (hname ▸ fresh) letter, rfl⟩

/-- A dot is only ever read as a dot. -/
theorem Reads.of_dot {position : Nat} {p next : Pending} {tokens : List Token}
    (h : Reads position p '.' tokens next) :
    p.endsName = true ∧ tokens = p.flush ++ [.opening] ∧ next = .nothing := by
  cases h with
  | dot behind => exact ⟨behind, rfl, rfl⟩
  | parameter letter => cases letter
  | continues word => cases word
  | blank idle blank => cases blank
  | letter idle fresh letter => cases letter

/-- Nothing but an opening bracket leaves a bracket pending. -/
theorem Reads.of_atBracket {position : Nat} {p next : Pending} {c : Char} {tokens : List Token}
    (h : Reads position p c tokens next) (hnext : next.atBracket = true) : c = '(' := by
  cases h with
  | opening idle => rfl
  | parameter letter => cases hnext
  | continues word => cases hnext
  | backslash idle => cases hnext
  | blank idle blank => cases hnext
  | dot behind => cases hnext
  | closing idle apart => cases hnext
  | letter idle fresh letter => cases hnext

end Pending

/-! ### The two scans go in step -/

namespace Scan

/-- Scans that differ at most in positions. -/
structure Alike (scan scan' : Scan) : Prop where
  shape : scan.pending.shape = scan'.pending.shape
  emitted : scan.emitted = scan'.emitted

theorem Alike.awaitsParameter {scan scan' : Scan} (h : Alike scan scan') :
    scan.pending.awaitsParameter = scan'.pending.awaitsParameter := by
  rw [← Pending.awaitsParameter_shape scan.pending, h.shape, Pending.awaitsParameter_shape]

theorem Alike.flush {scan scan' : Scan} (h : Alike scan scan') :
    scan.pending.flush = scan'.pending.flush := by
  rw [← Pending.flush_shape scan.pending, h.shape, Pending.flush_shape]

theorem Alike.tokens {scan scan' : Scan} (h : Alike scan scan') : scan.tokens = scan'.tokens := by
  rw [Scan.tokens, h.flush, h.emitted, Scan.tokens]

/-- One character of a line, and what is written for it without dots. -/
theorem Alike.reads {scan scan' : Scan} {c : Char} {tokens : List Token} {next : Pending}
    (h : Alike scan scan') (hreads : Pending.Reads scan.position scan.pending c tokens next) :
    ∃ later, scan'.run (expand c) = .ok later ∧ Alike (scan.after tokens next) later := by
  by_cases hdot : c = '.'
  · subst hdot
    obtain ⟨hends, rfl, rfl⟩ := hreads.of_dot
    have hidle : scan'.pending.awaitsParameter = false := by
      rw [← h.awaitsParameter]
      exact Pending.awaitsParameter_of_endsName hends
    -- The space behind the bracket completes no token, and the bracket may be closed after it.
    have hspace : Pending.Reads (scan'.position + 1) (.bracket scan'.position) ' ' [] .nothing :=
      .blank rfl rfl
    refine ⟨_, run_cons_eq_ok_iff.mpr ⟨_, _, .opening hidle,
      run_cons_eq_ok_iff.mpr ⟨_, _, hspace, rfl⟩⟩, ⟨rfl, ?_⟩⟩
    simp [after, h.flush, h.emitted]
  · obtain ⟨next', hreads', hnext⟩ := hreads.alike h.shape
    refine ⟨scan'.after tokens next', ?_, ⟨hnext, by simp [after, h.emitted]⟩⟩
    rw [expand_of_ne hdot]
    exact run_cons_eq_ok_iff.mpr ⟨tokens, next', hreads', rfl⟩

theorem run_expanded {line : List Char} {scan scan' last : Scan} (h : Alike scan scan')
    (hrun : scan.run line = .ok last) :
    ∃ last', scan'.run (line.flatMap expand) = .ok last' ∧ Alike last last' := by
  induction line generalizing scan scan' with
  | nil =>
      cases hrun
      exact ⟨scan', rfl, h⟩
  | cons c line ih =>
      obtain ⟨tokens, next, hreads, hrest⟩ := run_cons_eq_ok_iff.mp hrun
      obtain ⟨later, hlater, halike⟩ := h.reads hreads
      obtain ⟨last', hlast, hend⟩ := ih halike hrest
      refine ⟨last', ?_, hend⟩
      rw [List.flatMap_cons, run_append, hlater]
      exact hlast

theorem ends_in_bracket {line : List Char} {scan : Scan} (h : Scan.start.run line = .ok scan)
    (hbracket : scan.pending.atBracket = true) : ∃ before, line = before ++ ['('] := by
  have hstart : Scan.start.pending.atBracket = true → ∃ before, [] = before ++ ['('] :=
    fun h => by cases h
  refine run_invariant (P := fun read scan => scan.pending.atBracket = true →
    ∃ before, read = before ++ ['(']) hstart ?_ h hbracket
  intro read scan c tokens next _ hreads hnext
  exact ⟨read, by rw [hreads.of_atBracket hnext]⟩

/-- Closing brackets are read as they stand, unless the first of them is to close an empty group. -/
theorem yields_closings {scan : Scan} (idle : scan.pending.awaitsParameter = false)
    (apart : scan.pending.atBracket = false) (k : Nat) :
    scan.Yields (List.replicate k ')') (List.replicate k .closing) := by
  induction k generalizing scan with
  | zero => exact yields_nil idle
  | succ k ih =>
      refine .cons (.closing idle apart) (ih rfl rfl) ?_
      simp [Scan.tokens, after, Pending.flush, List.replicate_succ]

end Scan

/-! ### The line without dots is accepted -/

theorem count_expanded (line : List Char) :
    (line.flatMap expand).count '(' = line.count '(' + line.count '.' ∧
      (line.flatMap expand).count ')' = line.count ')' := by
  induction line with
  | nil => exact ⟨rfl, rfl⟩
  | cons c line ih =>
      by_cases hdot : c = '.'
      · subst hdot
        simp [expand, ih]
        omega
      · simp only [List.flatMap_cons, expand_of_ne hdot, List.count_append, List.count_cons, ih,
          beq_iff_eq, hdot, List.count_nil, ↓reduceIte]
        omega

theorem neverOvercloses_expanded {line : List Char} (h : NeverOvercloses '(' ')' line) :
    NeverOvercloses '(' ')' (line.flatMap expand) := by
  induction line using List.reverseRecOn with
  | nil => exact neverOvercloses_nil
  | append_singleton line c ih =>
      have hroom := h.room Brackets.opening_ne_closing
      have hline := count_expanded line
      have hc := (count_expanded [c]).2
      rw [List.flatMap_append]
      refine (ih h.of_append).append ?_
      omega

/-- The brackets of the line without dots nest. -/
theorem nests_undotted {line : List Char} (h : Nests '(' ')' line) :
    Nests '(' ')' (undotted line) := by
  have hcount := count_expanded line
  have htotal := h.total
  constructor
  · refine (neverOvercloses_expanded h.prefixes).append ?_
    rw [List.count_replicate_self]
    omega
  · simp only [undotted, List.count_append, List.count_replicate_self, List.count_replicate]
    simp
    omega

/-- **Dots are sugar.** An accepted line that is written without dots is accepted too, and has the
same tokens. -/
theorem tokenize_undotted {line : List Char} {tokens : List Token}
    (h : tokenize line = .ok tokens) : tokenize (undotted line) = .ok tokens := by
  obtain ⟨hcheck, last, hrun, hidle, rfl⟩ := tokenize_eq_ok_iff.mp h
  have hnests := Brackets.check_eq_ok_iff.mp hcheck
  have hstart : Scan.Alike Scan.start Scan.start := ⟨rfl, rfl⟩
  obtain ⟨last', hrun', halike⟩ := Scan.run_expanded hstart hrun
  have hidle' : last'.pending.awaitsParameter = false := halike.awaitsParameter ▸ hidle
  have hapart : last'.pending.atBracket = false := by
    rw [← Pending.atBracket_shape, ← halike.shape, Pending.atBracket_shape, Bool.eq_false_iff]
    intro hbracket
    obtain ⟨before, rfl⟩ := Scan.ends_in_bracket hrun hbracket
    exact not_nests_concat_opening Brackets.opening_ne_closing hnests
  obtain ⟨final, hclosings, hfinal, htokens⟩ :=
    Scan.yields_closings hidle' hapart (line.count '.')
  have hall : final.tokens = Token.closeGroups last.tokens := by
    rw [htokens, ← halike.tokens, Token.closeGroups, Scan.unclosed_tokens hcheck hrun]
  refine tokenize_eq_ok_iff.mpr ⟨?_, final, ?_, hfinal, ?_⟩
  · exact Brackets.check_eq_ok_iff.mpr (nests_undotted hnests)
  · rw [undotted, Scan.run_append, hrun']
    exact hclosings
  · rw [hall, Token.closeGroups_of_nests (Scan.nests_closeGroups hcheck hrun)]

/-- In `\x.(\z.z)w` the closing bracket ends the group of the second dot, so the end of the line has
to close that of the bracket. -/
theorem interleaved_undotted :
    tokenize ['\\', 'x', '.', '(', '\\', 'z', '.', 'z', ')', 'w'] =
        .ok [.lambda, .name "x", .opening, .opening, .lambda, .name "z", .opening, .name "z",
          .closing, .name "w", .closing, .closing] ∧
      tokenize (undotted ['\\', 'x', '.', '(', '\\', 'z', '.', 'z', ')', 'w']) =
        .ok [.lambda, .name "x", .opening, .opening, .lambda, .name "z", .opening, .name "z",
          .closing, .name "w", .closing, .closing] := by
  have haccepted : tokenize ['\\', 'x', '.', '(', '\\', 'z', '.', 'z', ')', 'w'] =
      .ok [.lambda, .name "x", .opening, .opening, .lambda, .name "z", .opening, .name "z",
        .closing, .name "w", .closing, .closing] := rfl
  exact ⟨haccepted, tokenize_undotted haccepted⟩

end LambdaSyntax
