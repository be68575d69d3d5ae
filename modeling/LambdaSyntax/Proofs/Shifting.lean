import LambdaSyntax.Proofs.Reading

/-!
Lines behind other characters.

The scanner and the bracket check use positions for nothing but their reports. So what a line gives
behind `n` further characters is what it gives alone, with `n` added to the position of a rejection.
`Scan.behind n before` is a scan that has read `n` further characters in front, which gave the
tokens `before`.

* `Pending.Reads.shift`, `Pending.Refuses.shift`: one character is read or refused as it is at any
  other position.
* `Scan.run_behind`, `Scan.finish_run_behind`: a scan goes on behind other characters as it does
  alone.
* `Brackets.checkFrom_append`, `Brackets.check_append`: brackets that match make no difference to
  the check of what follows.
-/

namespace LambdaSyntax

/-- The rejection of a line, where the line stands behind `n` further characters. -/
def Rejection.shift (n : Nat) (rejection : Rejection) : Rejection :=
  ⟨rejection.fault, rejection.position + n⟩

section Shifted

variable {α β γ δ : Type}

/-- What is found in a line, where the line stands behind `n` further characters: `f` says what
becomes of a value, and a rejection is at its position behind them. -/
def shifted (n : Nat) (f : α → β) (result : Except Rejection α) : Except Rejection β :=
  (result.map f).mapError (Rejection.shift n)

@[simp] theorem shifted_ok (n : Nat) (f : α → β) (a : α) :
    shifted n f (.ok a) = .ok (f a) := rfl

@[simp] theorem shifted_error (n : Nat) (f : α → β) (rejection : Rejection) :
    shifted n f (.error rejection) = .error (rejection.shift n) := rfl

/-- Two steps are shifted when each is. -/
theorem shifted_bind {n : Nat} {f : α → β} {g : γ → δ} {first : Except Rejection α}
    {next : α → Except Rejection γ} {next' : β → Except Rejection δ}
    (h : ∀ a, next' (f a) = shifted n g (next a)) :
    (shifted n f first).bind next' = shifted n g (first.bind next) := by
  cases first with
  | error rejection => rfl
  | ok a => exact h a

end Shifted

/-! ### One character -/

namespace Pending

/-- What is pending, with its position behind `n` further characters. -/
def shift (n : Nat) : Pending → Pending
  | .lambda position => .lambda (position + n)
  | .bracket position => .bracket (position + n)
  | p => p

section Shift

variable (n : Nat) (p : Pending)

@[simp] theorem awaitsParameter_shift : (p.shift n).awaitsParameter = p.awaitsParameter := by
  cases p <;> rfl

@[simp] theorem atBracket_shift : (p.shift n).atBracket = p.atBracket := by
  cases p <;> rfl

@[simp] theorem inName_shift : (p.shift n).inName = p.inName := by
  cases p <;> rfl

@[simp] theorem endsName_shift : (p.shift n).endsName = p.endsName := by
  cases p <;> rfl

@[simp] theorem flush_shift : (p.shift n).flush = p.flush := by
  cases p <;> rfl

end Shift

/-- **A character is read the same behind further characters.** -/
theorem Reads.shift {position : Nat} {p next : Pending} {c : Char} {tokens : List Token}
    (h : Reads position p c tokens next) (n : Nat) :
    Reads (position + n) (p.shift n) c tokens (next.shift n) := by
  cases h with
  | parameter letter => exact .parameter letter
  | continues word => exact .continues word
  | letter idle fresh letter =>
      exact .letter (by rwa [awaitsParameter_shift]) (by rwa [inName_shift]) letter
  | backslash idle =>
      rw [← flush_shift n p]
      exact .backslash (by rwa [awaitsParameter_shift])
  | blank idle blank =>
      rw [← flush_shift n p]
      exact .blank (by rwa [awaitsParameter_shift]) blank
  | dot behind =>
      rw [← flush_shift n p]
      exact .dot (by rwa [endsName_shift])
  | opening idle =>
      rw [← flush_shift n p]
      exact .opening (by rwa [awaitsParameter_shift])
  | closing idle apart =>
      rw [← flush_shift n p]
      exact .closing (by rwa [awaitsParameter_shift]) (by rwa [atBracket_shift])

/-- **A character is refused the same behind further characters**, at its position there. -/
theorem Refuses.shift {position : Nat} {p : Pending} {c : Char} {rejection : Rejection}
    (h : Refuses position p c rejection) (n : Nat) :
    Refuses (position + n) (p.shift n) c (rejection.shift n) := by
  cases h with
  | blankAfterLambda blank => exact .blankAfterLambda blank
  | missingParameter blank letter => exact .missingParameter blank letter
  | emptyGroup => exact .emptyGroup
  | leadingDigit idle fresh digit =>
      exact .leadingDigit (by rwa [awaitsParameter_shift]) (by rwa [inName_shift]) digit
  | misplacedDot idle behind =>
      exact .misplacedDot (by rwa [awaitsParameter_shift]) (by rwa [endsName_shift])
  | illegalCharacter idle sign word blank =>
      exact .illegalCharacter (by rwa [awaitsParameter_shift]) sign word blank

end Pending

/-! ### A whole scan -/

namespace Scan

/-- A scan behind `n` further characters that gave the tokens `before`. -/
def behind (n : Nat) (before : List Token) (scan : Scan) : Scan :=
  ⟨scan.position + n, scan.pending.shift n, scan.emitted ++ before.reverse⟩

variable (n : Nat) (before : List Token) (scan : Scan)

theorem step_behind (c : Char) :
    (scan.behind n before).step c = shifted n (behind n before) (scan.step c) := by
  rcases Pending.reads_or_refuses scan.pending scan.position c with
    ⟨tokens, next, hreads⟩ | ⟨rejection, hrefuses⟩
  · rw [step_eq_ok_iff.mpr ⟨tokens, next, hreads, rfl⟩, shifted_ok]
    refine step_eq_ok_iff.mpr ⟨tokens, next.shift n, hreads.shift n, ?_⟩
    simp [behind, after, Nat.add_right_comm]
  · rw [step_eq_error_iff.mpr hrefuses, shifted_error]
    exact step_eq_error_iff.mpr (hrefuses.shift n)

/-- **A scan goes on behind other characters as it does alone.** -/
theorem run_behind (line : List Char) :
    (scan.behind n before).run line = shifted n (behind n before) (scan.run line) := by
  induction line generalizing scan with
  | nil => rfl
  | cons c rest ih =>
      rw [run_cons, run_cons, step_behind]
      exact shifted_bind ih

theorem finish_behind : (scan.behind n before).finish = shifted n (before ++ ·) scan.finish := by
  obtain ⟨position, pending, emitted⟩ := scan
  cases pending with
  | lambda backslash => rfl
  | nothing => simp [behind, finish, Pending.shift]
  | parameter => simp [behind, finish, Pending.shift]
  | bracket opening => simp [behind, finish, Pending.shift, Pending.flush]
  | name reversed => simp [behind, finish, Pending.shift]

theorem finish_run_behind (line : List Char) :
    ((scan.behind n before).run line).bind finish =
      shifted n (before ++ ·) ((scan.run line).bind finish) := by
  rw [run_behind]
  exact shifted_bind (finish_behind n before)

end Scan

/-! ### The bracket check -/

namespace Brackets

section CheckFrom

variable {position : Nat} {opened : List Nat} {c : Char} {line : List Char}

theorem checkFrom_opening :
    checkFrom position opened ('(' :: line) = checkFrom (position + 1) (position :: opened) line :=
  rfl

theorem checkFrom_closing (innermost : Nat) :
    checkFrom position (innermost :: opened) (')' :: line) = checkFrom (position + 1) opened line :=
  rfl

theorem checkFrom_plain (hopening : c ≠ '(') (hclosing : c ≠ ')') :
    checkFrom position opened (c :: line) = checkFrom (position + 1) opened line := by
  cases opened <;> simp [checkFrom, hopening, hclosing]

/-- Characters other than brackets only count as characters. -/
theorem checkFrom_plain_append {plain : List Char} (h : ∀ c ∈ plain, c ≠ '(' ∧ c ≠ ')') :
    checkFrom position opened (plain ++ line) =
      checkFrom (position + plain.length) opened line := by
  induction plain generalizing position with
  | nil => rfl
  | cons c plain ih =>
      obtain ⟨⟨hopening, hclosing⟩, hplain⟩ := List.forall_mem_cons.mp h
      rw [List.cons_append, checkFrom_plain hopening hclosing, ih hplain, List.length_cons,
        Nat.add_assoc, Nat.add_comm 1]

end CheckFrom

/-- **Brackets that match make no difference to the rest.** What is open around them is open behind
them. -/
theorem checkFrom_append {line : List Char} {position : Nat} {inner : List Nat}
    (h : checkFrom position inner line = .ok ()) (outer : List Nat) (rest : List Char) :
    checkFrom position (inner ++ outer) (line ++ rest) =
      checkFrom (position + line.length) outer rest := by
  induction line generalizing position inner with
  | nil =>
      cases inner with
      | nil => rfl
      | cons innermost inner => cases h
  | cons c line ih =>
      have hlength : position + (c :: line).length = position + 1 + line.length := by
        rw [List.length_cons]
        omega
      rw [hlength, List.cons_append]
      by_cases hopening : c = '('
      · subst hopening
        rw [checkFrom_opening] at h ⊢
        exact ih h
      · by_cases hclosing : c = ')'
        · subst hclosing
          cases inner with
          | nil => cases h
          | cons innermost inner =>
              rw [checkFrom_closing] at h
              rw [List.cons_append, checkFrom_closing]
              exact ih h
        · rw [checkFrom_plain hopening hclosing] at h ⊢
          exact ih h

/-- Positions do not matter to the check. -/
theorem checkFrom_shift (n position : Nat) (opened : List Nat) (line : List Char) :
    checkFrom (position + n) (opened.map (· + n)) line =
      shifted n id (checkFrom position opened line) := by
  induction line generalizing position opened with
  | nil =>
      cases opened with
      | nil => rfl
      | cons innermost outer => rfl
  | cons c line ih =>
      have hnext : position + n + 1 = position + 1 + n := Nat.add_right_comm ..
      by_cases hopening : c = '('
      · subst hopening
        rw [checkFrom_opening, checkFrom_opening, hnext]
        exact ih (position + 1) (position :: opened)
      · by_cases hclosing : c = ')'
        · subst hclosing
          cases opened with
          | nil => rfl
          | cons innermost outer =>
              rw [List.map_cons, checkFrom_closing, checkFrom_closing, hnext]
              exact ih (position + 1) outer
        · rw [checkFrom_plain hopening hclosing, checkFrom_plain hopening hclosing, hnext]
          exact ih (position + 1) opened

theorem check_append {first : List Char} (h : check first = .ok ()) (second : List Char) :
    check (first ++ second) = shifted first.length id (check second) := by
  have hrest := checkFrom_append h [] second
  have hshift := checkFrom_shift first.length 0 [] second
  exact hrest.trans hshift

end Brackets

end LambdaSyntax
