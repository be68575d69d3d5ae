import Mathlib.Order.Bounds.Basic
import LambdaSyntax.Proofs.Nesting
import LambdaSyntax.Proofs.Shifting
import LambdaSyntax.Proofs.Trimming

/-!
Which bracket lacks its partner.

The bracket check keeps the positions of the brackets that stand open, and reports the top of that
stack if the line ends too early. Counting says the same without a stack. A closing bracket lacks
its partner where the line first overcloses: what stands before it matches on its own. An opening
bracket stays open where what stands behind it matches on its own; there is only one such bracket,
the innermost. It is found by reading the line from its end, where openings and closings change
places (`exists_last_unclosed`).

* `Nests.reverse`: what nests does so read from its end, with openings for closings.
* `Brackets.check_cases`: a line nests, overcloses at one bracket, or leaves one open, and the check
  says which.
* `Brackets.checkFrom_congr`: the check sees nothing of a line but its brackets.
* `Brackets.check_by_counting`: the results of the check, by counting.
-/

namespace LambdaSyntax

/-! ### Reading from the end -/

section Nests

variable {α : Type} [DecidableEq α] {opening closing : α}

/-- What nests does so read from its end, where the openings are closings. -/
theorem Nests.reverse {xs : List α} (h : Nests closing opening xs) :
    Nests opening closing xs.reverse := by
  constructor
  · rintro p ⟨q, hq⟩
    -- What is read last from the end is what comes first.
    have hxs : xs = q.reverse ++ p.reverse := by
      rw [← List.reverse_append, hq, List.reverse_reverse]
    have hprefix := h.prefixes q.reverse ⟨p.reverse, hxs.symm⟩
    have htotal := h.total
    rw [hxs] at htotal
    simp only [List.count_append, List.count_reverse] at hprefix htotal
    omega
  · rw [List.count_reverse, List.count_reverse, h.total]

/-- A sequence with more openings than closings leaves an opening behind which all groups are
closed. -/
theorem exists_last_unclosed (apart : opening ≠ closing) {xs : List α}
    (h : xs.count closing < xs.count opening) :
    ∃ before inner, xs = before ++ opening :: inner ∧ Nests opening closing inner := by
  have hover : ¬ NeverOvercloses closing opening xs.reverse := by
    intro hnever
    have hcount := hnever.count_le
    simp only [List.count_reverse] at hcount
    omega
  obtain ⟨inner, rest, hsplit, hinner⟩ := exists_first_overclosing apart.symm hover
  refine ⟨rest.reverse, inner.reverse, ?_, hinner.reverse⟩
  rw [← List.reverse_reverse xs, hsplit]
  simp

end Nests

namespace Brackets

/-! ### Where a partner is missing -/

/-- The character at position `i` is a closing bracket, and all that were opened before it are
closed before it. -/
def OverclosesAt (chars : List Char) (i : Nat) : Prop :=
  chars[i]? = some ')' ∧ (chars.take i).count ')' = (chars.take i).count '('

/-- The character at position `i` is an opening bracket, and the brackets behind it are one
another's partners. -/
def StaysOpenAt (chars : List Char) (i : Nat) : Prop :=
  chars[i]? = some '(' ∧ Nests '(' ')' (chars.drop (i + 1))

/-- A line that never overcloses does so at no position. -/
theorem not_overclosesAt {line : List Char} (h : NeverOvercloses '(' ')' line) (i : Nat) :
    ¬ OverclosesAt line i := by
  rintro ⟨hi, hcount⟩
  obtain ⟨hinside, hget⟩ := List.getElem?_eq_some_iff.mp hi
  have hprefix := h _ (List.take_prefix (i + 1) line)
  rw [List.take_succ_eq_append_getElem hinside, hget, List.count_append, List.count_append,
    List.count_singleton_self, List.count_singleton, if_neg (by decide)] at hprefix
  omega

/-- The first closing bracket without a partner stands behind a part in which all have theirs. -/
theorem isLeast_overclosesAt {inner : List Char} (h : Nests '(' ')' inner) (rest : List Char) :
    IsLeast {i | OverclosesAt (inner ++ ')' :: rest) i} inner.length := by
  constructor
  · simp [OverclosesAt, h.total]
  · rintro i ⟨hi, hcount⟩
    by_contra hlt
    have hinside : i < inner.length := by omega
    rw [List.getElem?_append_left hinside] at hi
    rw [List.take_append_of_le_length hinside.le] at hcount
    exact not_overclosesAt h.prefixes i ⟨hi, hcount⟩

/-- The line around a bracket that stays open. -/
theorem StaysOpenAt.eq_append {line : List Char} {i : Nat} (h : StaysOpenAt line i) :
    line = line.take i ++ '(' :: line.drop (i + 1) := by
  obtain ⟨hinside, hget⟩ := List.getElem?_eq_some_iff.mp h.1
  rw [← hget, ← List.drop_eq_getElem_cons hinside, List.take_append_drop]

/-- No bracket stays open in a line that nests. -/
theorem StaysOpenAt.not_nests {line : List Char} {i : Nat} (h : StaysOpenAt line i) :
    ¬ Nests '(' ')' line := by
  rw [h.eq_append]
  exact not_nests_append_opening opening_ne_closing h.2

/-- **At most one bracket stays open.** What stands behind an earlier one does not nest, with the
later one in it. -/
theorem StaysOpenAt.unique {line : List Char} {i j : Nat} (hi : StaysOpenAt line i)
    (hj : StaysOpenAt line j) : i = j := by
  have later : ∀ {i j}, StaysOpenAt line i → StaysOpenAt line j → ¬ i < j := by
    intro i j hi hj hlt
    have hbehind : StaysOpenAt (line.drop (i + 1)) (j - (i + 1)) := by
      refine ⟨?_, ?_⟩
      · rw [List.getElem?_drop, Nat.add_sub_cancel' hlt]
        exact hj.1
      · rw [List.drop_drop, ← Nat.add_assoc, Nat.add_sub_cancel' hlt]
        exact hj.2
    exact hbehind.not_nests hi.2
  exact Nat.le_antisymm (Nat.le_of_not_lt (later hj hi)) (Nat.le_of_not_lt (later hi hj))

theorem staysOpenAt_append (before : List Char) {inner : List Char} (h : Nests '(' ')' inner) :
    StaysOpenAt (before ++ '(' :: inner) before.length := by
  constructor
  · simp
  · rwa [List.drop_append, List.drop_of_length_le (by omega), Nat.add_sub_cancel_left]

/-! ### What the check reports -/

/-- While a line never overcloses, some of its brackets stand open, and the check goes on with
them. -/
theorem exists_checkFrom_append {line : List Char} {position : Nat} {opened : List Nat}
    (h : ∀ p, p <+: line → p.count ')' ≤ opened.length + p.count '(') :
    ∃ still, ∀ rest, checkFrom position opened (line ++ rest) =
      checkFrom (position + line.length) still rest := by
  induction line generalizing position opened with
  | nil => exact ⟨opened, fun rest => rfl⟩
  | cons c line ih =>
      obtain ⟨-, hline⟩ := forall_prefix_cons.mp h
      have hposition : position + (c :: line).length = position + 1 + line.length := by
        rw [List.length_cons]
        omega
      simp only [List.cons_append, hposition]
      by_cases hopening : c = '('
      · subst hopening
        simp only [checkFrom_opening]
        refine ih fun p hp => ?_
        have hcount := hline p hp
        rw [List.count_cons_self, List.count_cons_of_ne opening_ne_closing] at hcount
        rw [List.length_cons]
        omega
      · by_cases hclosing : c = ')'
        · subst hclosing
          cases opened with
          | nil =>
              have hfirst := hline [] List.nil_prefix
              simp at hfirst
          | cons innermost outer =>
              simp only [checkFrom_closing]
              refine ih fun p hp => ?_
              have hcount := hline p hp
              rw [List.count_cons_self, List.count_cons_of_ne opening_ne_closing.symm,
                List.length_cons] at hcount
              omega
        · simp only [checkFrom_plain hopening hclosing]
          refine ih fun p hp => ?_
          have hcount := hline p hp
          rwa [List.count_cons_of_ne hopening, List.count_cons_of_ne hclosing] at hcount

/-- A closing bracket without a partner is reported whatever follows it. -/
theorem check_append_closing {inner : List Char} (h : Nests '(' ')' inner) (rest : List Char) :
    check (inner ++ ')' :: rest) = .error ⟨.unmatchedClosing, inner.length⟩ := by
  have hfirst : check (')' :: rest) = .error ⟨.unmatchedClosing, 0⟩ := rfl
  rw [check_append (check_eq_ok_iff.mpr h), hfirst, shifted_error, Rejection.shift, Nat.zero_add]

/-- The opening bracket behind which all others are closed is on top of the stack at the end. -/
theorem check_append_opening {before inner : List Char} (hbefore : NeverOvercloses '(' ')' before)
    (h : Nests '(' ')' inner) :
    check (before ++ '(' :: inner) = .error ⟨.unmatchedOpening, before.length⟩ := by
  obtain ⟨still, hstill⟩ : ∃ still, ∀ rest, checkFrom 0 [] (before ++ rest) =
      checkFrom (0 + before.length) still rest :=
    exists_checkFrom_append fun p hp => by simpa using hbefore p hp
  have hinner : checkFrom (before.length + 1) [] inner = .ok () :=
    checkFrom_eq_ok_iff.mpr
      ⟨fun p hp => by simpa using h.prefixes p hp, by simpa using h.total.symm⟩
  have hend := checkFrom_append hinner (before.length :: still) []
  rw [List.nil_append, List.append_nil] at hend
  rw [check, hstill, Nat.zero_add, checkFrom_opening, hend]
  rfl

/-- **A line nests, or a closing bracket or else an opening one lacks its partner**, and the check
says which. -/
theorem check_cases (line : List Char) :
    (Nests '(' ')' line ∧ check line = .ok ()) ∨
      (∃ i, IsLeast {i | OverclosesAt line i} i ∧ check line = .error ⟨.unmatchedClosing, i⟩) ∨
        ∃ i, (∀ j, ¬ OverclosesAt line j) ∧ StaysOpenAt line i ∧
          check line = .error ⟨.unmatchedOpening, i⟩ := by
  by_cases hnever : NeverOvercloses '(' ')' line
  · rcases Nat.eq_or_lt_of_le hnever.count_le with htotal | hmore
    · have hnests : Nests '(' ')' line := ⟨hnever, htotal.symm⟩
      exact .inl ⟨hnests, check_eq_ok_iff.mpr hnests⟩
    · obtain ⟨before, inner, rfl, hinner⟩ := exists_last_unclosed opening_ne_closing hmore
      exact .inr (.inr ⟨before.length, not_overclosesAt hnever, staysOpenAt_append before hinner,
        check_append_opening hnever.of_append hinner⟩)
  · obtain ⟨inner, rest, rfl, hinner⟩ := exists_first_overclosing opening_ne_closing hnever
    exact .inr (.inl ⟨inner.length, isLeast_overclosesAt hinner rest,
      check_append_closing hinner rest⟩)

theorem check_eq_unmatchedClosing_iff {line : List Char} {i : Nat} :
    check line = .error ⟨.unmatchedClosing, i⟩ ↔ IsLeast {i | OverclosesAt line i} i := by
  rcases check_cases line with ⟨hnests, hcheck⟩ | ⟨k, hleast, hcheck⟩ | ⟨k, hnever, -, hcheck⟩
  · simp only [hcheck, reduceCtorEq, false_iff]
    exact fun h => not_overclosesAt hnests.prefixes i h.1
  · simp only [hcheck, Except.error.injEq, Rejection.mk.injEq, true_and]
    constructor
    · rintro rfl
      exact hleast
    · exact hleast.unique
  · simp only [hcheck, Except.error.injEq, Rejection.mk.injEq, reduceCtorEq, false_and, false_iff]
    exact fun h => hnever i h.1

theorem check_eq_unmatchedOpening_iff {line : List Char} {i : Nat} :
    check line = .error ⟨.unmatchedOpening, i⟩ ↔
      (∀ j, ¬ OverclosesAt line j) ∧ StaysOpenAt line i := by
  rcases check_cases line with ⟨hnests, hcheck⟩ | ⟨k, hleast, hcheck⟩ | ⟨k, hnever, hopen, hcheck⟩
  · simp only [hcheck, reduceCtorEq, false_iff]
    exact fun h => h.2.not_nests hnests
  · simp only [hcheck, Except.error.injEq, Rejection.mk.injEq, reduceCtorEq, false_and, false_iff]
    exact fun h => h.1 k hleast.1
  · simp only [hcheck, Except.error.injEq, Rejection.mk.injEq, true_and]
    constructor
    · rintro rfl
      exact ⟨hnever, hopen⟩
    · exact fun h => hopen.unique h.2

/-! ### Lines with the same brackets -/

/-- The two lines have their brackets at the same positions. They may differ in all other
characters, and in their lengths. -/
def SameBrackets (first second : List Char) : Prop :=
  ∀ i : Nat, ∀ bracket ∈ ['(', ')'], first[i]? = some bracket ↔ second[i]? = some bracket

/-- A line without brackets is as good as none. -/
theorem SameBrackets.plain {line : List Char} (h : SameBrackets [] line) :
    ∀ c ∈ line, c ≠ '(' ∧ c ≠ ')' := by
  intro c hc
  obtain ⟨i, hi⟩ := List.mem_iff_getElem?.mp hc
  constructor
  · rintro rfl
    cases (h i '(' (by simp)).mpr hi
  · rintro rfl
    cases (h i ')' (by simp)).mpr hi

theorem SameBrackets.symm {first second : List Char} (h : SameBrackets first second) :
    SameBrackets second first :=
  fun i bracket hbracket => (h i bracket hbracket).symm

/-- **The check sees nothing of a line but its brackets.** -/
theorem checkFrom_congr {first second : List Char} (h : SameBrackets first second)
    (position : Nat) (opened : List Nat) :
    checkFrom position opened first = checkFrom position opened second := by
  induction first generalizing second position opened with
  | nil => exact (checkFrom_append_of_plain h.plain position opened []).symm
  | cons c first ih =>
      cases second with
      | nil => exact checkFrom_append_of_plain h.symm.plain position opened []
      | cons d second =>
          have hrest : SameBrackets first second := fun i => h (i + 1)
          have hopening : c = '(' ↔ d = '(' := by simpa using h 0 '(' (by simp)
          have hclosing : c = ')' ↔ d = ')' := by simpa using h 0 ')' (by simp)
          unfold checkFrom
          simp only [hopening, hclosing, ih hrest]

/-- **The bracket check, by counting.** It depends on nothing but the positions of the brackets. It
reports a closing bracket exactly if that is the first one before which all that were opened are
closed; failing that, an opening one exactly if the brackets behind it match, and there is only one
such bracket. It reports nothing else, and it reports nothing exactly if the brackets of the whole
line match. -/
theorem check_by_counting (line : List Char) :
    (∀ line', SameBrackets line line' → check line = check line') ∧
    (∀ i, check line = .error ⟨.unmatchedClosing, i⟩ ↔ IsLeast {i | OverclosesAt line i} i) ∧
    (∀ i, check line = .error ⟨.unmatchedOpening, i⟩ ↔
      (∀ j, ¬ OverclosesAt line j) ∧ StaysOpenAt line i) ∧
    (∀ i j, StaysOpenAt line i → StaysOpenAt line j → i = j) ∧
    (∀ rejection, check line = .error rejection →
      rejection.fault = .unmatchedClosing ∨ rejection.fault = .unmatchedOpening) ∧
    (check line = .ok () ↔ Nests '(' ')' line) :=
  ⟨fun _ h => checkFrom_congr h 0 [], fun _ => check_eq_unmatchedClosing_iff,
    fun _ => check_eq_unmatchedOpening_iff, fun _ _ hi hj => hi.unique hj,
    fun _ => fault_of_checkFrom, check_eq_ok_iff⟩

/-- In `(x))(` the bracket at 3 comes too soon, whatever follows. In `((é)(` the one at 4 is the
innermost of two that stay open, and is reported of any line with these brackets. -/
theorem closing_and_opening_without_partner :
    (check ['(', 'x', ')', ')', '('] = .error ⟨.unmatchedClosing, 3⟩ ∧
      IsLeast {i | OverclosesAt ['(', 'x', ')', ')', '('] i} 3) ∧
    StaysOpenAt ['(', '(', 'é', ')', '('] 4 ∧ ¬ StaysOpenAt ['(', '(', 'é', ')', '('] 0 ∧
      SameBrackets ['(', '(', 'é', ')', '('] ['(', '(', '.', ')', '(', 'x', '.'] ∧
      check ['(', '(', '.', ')', '(', 'x', '.'] = .error ⟨.unmatchedOpening, 4⟩ := by
  have hclosing := check_by_counting ['(', 'x', ')', ')', '(']
  obtain ⟨hsame, -, hopening, hunique, -⟩ := check_by_counting ['(', '(', 'é', ')', '(']
  have hbrackets : SameBrackets ['(', '(', 'é', ')', '('] ['(', '(', '.', ')', '(', 'x', '.'] := by
    intro i bracket hbracket
    simp only [List.mem_cons, List.not_mem_nil, or_false] at hbracket
    match i with
    | 0 | 1 | 2 | 3 | 4 | 5 | 6 => rcases hbracket with rfl | rfl <;> decide
    | i + 7 => simp
  have hfour := ((hopening 4).mp rfl).2
  exact ⟨⟨rfl, (hclosing.2.1 3).mp rfl⟩, hfour, fun hzero => absurd (hunique 0 4 hzero hfour)
    (by decide), hbrackets, (hsame _ hbrackets).symm⟩

end Brackets

end LambdaSyntax
