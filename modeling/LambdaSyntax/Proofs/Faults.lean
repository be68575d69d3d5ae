import LambdaSyntax.Proofs.Reading

/-!
The faults of a line, position by position.

`FaultAt chars i fault` judges the character at position `i` by a window of four: the two characters
before it, itself, and the one after it. It knows nothing of lexemes, of the scanner's state or of
other faults. The scanner jumps over lexemes; the invariant that relates the two is
`Pending.Follows`, which reads the window off what is pending.

* `FaultAt.unique`: a position has at most one fault.
* `Scan.run_agrees`: from a scan that has met no fault, the rest of the line is accepted only if no
  position has a fault, and rejected at the first position that has one, for the fault it has.
* `tokenize_agrees_with_faults`: the same of a whole line, behind the bracket check.
-/

namespace LambdaSyntax

/-- The character `steps` places before position `i`, if there is one. -/
def charBefore (chars : List Char) (i steps : Nat) : Option Char :=
  if steps ≤ i then chars[i - steps]? else none

/-- The character before position `i` is a letter or digit. -/
def FollowsWordChar (chars : List Char) (i : Nat) : Prop :=
  ∃ b, charBefore chars i 1 = some b ∧ b.isAlphanum = true

/-- What is wrong with the character at position `i`, judged by the characters around it. -/
inductive FaultAt (chars : List Char) (i : Nat) : Fault → Prop where
  | blankAfterLambda {c : Char} (here : chars[i]? = some '\\') (next : chars[i + 1]? = some c)
      (blank : Text.isBlank c = true) : FaultAt chars i .blankAfterLambda
  | missingParameter (here : chars[i]? = some '\\')
      (next : ∀ c, chars[i + 1]? = some c → Text.isBlank c = false ∧ c.isAlpha = false) :
      FaultAt chars i .missingParameter
  | leadingDigit {c : Char} (here : chars[i]? = some c) (digit : c.isDigit = true)
      (behind : ¬ (FollowsWordChar chars i ∧ charBefore chars i 2 ≠ some '\\')) :
      FaultAt chars i .leadingDigit
  | misplacedDot (here : chars[i]? = some '.') (behind : ¬ FollowsWordChar chars i) :
      FaultAt chars i .misplacedDot
  | emptyGroup (here : chars[i]? = some '(') (next : chars[i + 1]? = some ')') :
      FaultAt chars i .emptyGroup
  | illegalCharacter {c : Char} (here : chars[i]? = some c)
      (sign : c ≠ '\\' ∧ c ≠ '.' ∧ c ≠ '(' ∧ c ≠ ')') (word : c.isAlphanum = false)
      (blank : Text.isBlank c = false) : FaultAt chars i (.illegalCharacter c)

/-- No position before `n` has a fault. -/
def FaultlessBefore (chars : List Char) (n : Nat) : Prop :=
  ∀ i < n, ∀ fault, ¬ FaultAt chars i fault

/-- A position has at most one fault: its character decides which kind it can have. -/
theorem FaultAt.unique {chars : List Char} {i : Nat} {fault fault' : Fault}
    (h : FaultAt chars i fault) (h' : FaultAt chars i fault') : fault = fault' := by
  cases h <;> cases h' <;> grind [Text.isAlphanum_iff, Text.ne_sign_of_isDigit]

/-- Only a position of the line can be at fault. -/
theorem FaultAt.lt_length {chars : List Char} {i : Nat} {fault : Fault}
    (h : FaultAt chars i fault) :
    i < chars.length := by
  cases h with
  | blankAfterLambda here _ _ => exact (List.getElem?_eq_some_iff.mp here).1
  | missingParameter here _ => exact (List.getElem?_eq_some_iff.mp here).1
  | leadingDigit here _ _ => exact (List.getElem?_eq_some_iff.mp here).1
  | misplacedDot here _ => exact (List.getElem?_eq_some_iff.mp here).1
  | emptyGroup here _ => exact (List.getElem?_eq_some_iff.mp here).1
  | illegalCharacter here _ _ _ => exact (List.getElem?_eq_some_iff.mp here).1

/-- The first position at fault and its fault are determined. -/
theorem FaultAt.first_unique {chars : List Char} {i j : Nat} {fault fault' : Fault}
    (h : FaultAt chars i fault) (hfirst : FaultlessBefore chars i)
    (h' : FaultAt chars j fault') (hfirst' : FaultlessBefore chars j) : i = j ∧ fault = fault' := by
  have hij : i = j := by
    rcases Nat.lt_trichotomy i j with hlt | heq | hgt
    · exact absurd h (hfirst' i hlt fault)
    · exact heq
    · exact absurd h' (hfirst j hgt fault')
  subst hij
  exact ⟨rfl, h.unique h'⟩

theorem faultlessBefore_succ {chars : List Char} {n : Nat} :
    FaultlessBefore chars (n + 1) ↔
      FaultlessBefore chars n ∧ ∀ fault, ¬ FaultAt chars n fault := by
  constructor
  · intro h
    exact ⟨fun i hi => h i (by omega), h n (by omega)⟩
  · rintro ⟨hbefore, hhere⟩ i hi
    rcases Nat.lt_succ_iff_lt_or_eq.mp hi with hlt | rfl
    · exact hbefore i hlt
    · exact hhere

/-! ### Characters without a fault -/

section Faultless

variable {chars : List Char} {i : Nat} {c : Char}

/-- White space, a closing bracket and a letter are never at fault. -/
theorem not_faultAt_of_plain (here : chars[i]? = some c)
    (plain : Text.isBlank c = true ∨ c = ')' ∨ c.isAlpha = true) {fault : Fault} :
    ¬ FaultAt chars i fault := by
  have signs : Text.isBlank '\\' = false ∧ Text.isBlank '.' = false ∧ Text.isBlank '(' = false := by
    decide
  have alpha : c.isAlpha = true → c.isAlphanum = true ∧ c.isDigit = false := by
    intro h
    exact ⟨Text.isAlphanum_of_isAlpha h, Text.isDigit_eq_false_of_isAlpha h⟩
  have digit : c.isDigit = true → c.isAlphanum = true := by
    intro h
    exact Text.isAlphanum_iff.mpr (.inr h)
  have word : c.isAlphanum = true →
      Text.isBlank c = false ∧ c ≠ '\\' ∧ c ≠ '.' ∧ c ≠ '(' ∧ c ≠ ')' := by
    intro h
    exact ⟨Text.isBlank_eq_false_of_isAlphanum h, Text.ne_sign_of_isAlphanum h⟩
  intro h
  cases h <;> grind

/-- A letter or digit that continues a name is not at fault. -/
theorem not_faultAt_of_word (here : chars[i]? = some c) (word : c.isAlphanum = true)
    (behind : FollowsWordChar chars i ∧ charBefore chars i 2 ≠ some '\\') {fault : Fault} :
    ¬ FaultAt chars i fault := by
  have signs := Text.ne_sign_of_isAlphanum word
  intro h
  cases h <;> grind

theorem not_faultAt_of_dot (here : chars[i]? = some '.') (behind : FollowsWordChar chars i)
    {fault : Fault} : ¬ FaultAt chars i fault := by
  intro h
  cases h <;> grind [Text.ne_sign_of_isDigit]

theorem not_faultAt_of_opening (here : chars[i]? = some '(') (next : chars[i + 1]? ≠ some ')')
    {fault : Fault} : ¬ FaultAt chars i fault := by
  intro h
  cases h <;> grind [Text.ne_sign_of_isDigit]

theorem not_faultAt_of_backslash (here : chars[i]? = some '\\') (next : chars[i + 1]? = some c)
    (letter : c.isAlpha = true) {fault : Fault} : ¬ FaultAt chars i fault := by
  have blank := Text.isBlank_eq_false_of_isAlphanum (Text.isAlphanum_of_isAlpha letter)
  intro h
  cases h <;> grind [Text.ne_sign_of_isDigit]

end Faultless

/-! ### What is pending, read off the characters before -/

/-- What is pending tells the last two characters read. -/
def Pending.Follows (read : List Char) : Pending → Prop
  | .nothing => ∀ b, read.getLast? = some b → b.isAlphanum = false ∧ b ≠ '\\'
  | .lambda i => ∃ before, read = before ++ ['\\'] ∧ i = before.length
  | .parameter => ∃ before b, read = before ++ ['\\', b] ∧ b.isAlphanum = true
  | .bracket i => ∃ before, read = before ++ ['('] ∧ i = before.length
  | .name _ => ∃ before b, read = before ++ [b] ∧ b.isAlphanum = true ∧
      before.getLast? ≠ some '\\'

/-- The positions before this one have been judged: a pending backslash or bracket has not. -/
def Pending.settled (position : Nat) : Pending → Nat
  | .lambda i => i
  | .bracket i => i
  | _ => position

theorem charBefore_one (read rest : List Char) :
    charBefore (read ++ rest) read.length 1 = read.getLast? := by
  rcases List.eq_nil_or_concat read with rfl | ⟨before, b, rfl⟩
  · rfl
  · simp [charBefore]

theorem charBefore_two (before rest : List Char) (b : Char) :
    charBefore (before ++ [b] ++ rest) (before ++ [b]).length 2 = before.getLast? := by
  rcases List.eq_nil_or_concat before with rfl | ⟨before', b', rfl⟩
  · rfl
  · simp [charBefore]

namespace Pending.Follows

variable {read rest : List Char} {p : Pending}

/-- A name or a parameter ends just before exactly when the character before is a word character. -/
theorem endsName_iff (h : p.Follows read) :
    p.endsName = true ↔ FollowsWordChar (read ++ rest) read.length := by
  rw [FollowsWordChar, charBefore_one]
  cases p with
  | nothing =>
      simp only [endsName, Bool.false_eq_true, false_iff]
      rintro ⟨b, hb, hword⟩
      simp [(h b hb).1] at hword
  | lambda i =>
      obtain ⟨before, rfl, -⟩ := h
      simp [endsName]
  | parameter =>
      obtain ⟨before, b, rfl, hword⟩ := h
      simp [endsName, hword]
  | bracket i =>
      obtain ⟨before, rfl, -⟩ := h
      simp [endsName]
  | name reversed =>
      obtain ⟨before, b, rfl, hword, -⟩ := h
      simp [endsName, hword]

/-- A name goes on exactly when, besides, that character is not the parameter of a backslash. -/
theorem inName_iff (h : p.Follows read) :
    p.inName = true ↔
      FollowsWordChar (read ++ rest) read.length ∧
        charBefore (read ++ rest) read.length 2 ≠ some '\\' := by
  rw [← h.endsName_iff]
  cases p with
  | nothing => simp [inName, endsName]
  | lambda i => simp [inName, endsName]
  | parameter =>
      obtain ⟨before, b, rfl, -⟩ := h
      have hsplit : before ++ ['\\', b] = (before ++ ['\\']) ++ [b] := by simp
      rw [hsplit, charBefore_two]
      simp [inName]
  | bracket i => simp [inName, endsName]
  | name reversed =>
      obtain ⟨before, b, rfl, -, hlast⟩ := h
      rw [charBefore_two]
      simp [inName, endsName, hlast]

/-- Where no parameter is due, no backslash stands just before. -/
theorem getLast?_ne_backslash (h : p.Follows read) (idle : p.awaitsParameter = false) :
    read.getLast? ≠ some '\\' := by
  cases p with
  | nothing =>
      intro hlast
      exact (h _ hlast).2 rfl
  | lambda i => simp [awaitsParameter] at idle
  | parameter =>
      obtain ⟨before, b, rfl, hword⟩ := h
      simpa using (Text.ne_sign_of_isAlphanum hword).1
  | bracket i =>
      obtain ⟨before, rfl, -⟩ := h
      simp
  | name reversed =>
      obtain ⟨before, b, rfl, hword, -⟩ := h
      simpa using (Text.ne_sign_of_isAlphanum hword).1

/-- Every reading keeps what is pending in step with the characters read. -/
theorem reads {position : Nat} {c : Char} {tokens : List Token} {next : Pending}
    (h : p.Follows read) (hposition : position = read.length)
    (hreads : Reads position p c tokens next) : next.Follows (read ++ [c]) := by
  cases hreads with
  | parameter letter =>
      obtain ⟨before, rfl, -⟩ := h
      exact ⟨before, c, by simp, Text.isAlphanum_of_isAlpha letter⟩
  | continues word =>
      obtain ⟨before, b, rfl, hb, -⟩ := h
      exact ⟨before ++ [b], c, rfl, word, by simpa using (Text.ne_sign_of_isAlphanum hb).1⟩
  | backslash idle => exact ⟨read, rfl, hposition⟩
  | blank idle blank =>
      intro b hb
      obtain rfl : c = b := by simpa using hb
      exact ⟨Text.isAlphanum_eq_false_of_isBlank blank, (Text.ne_sign_of_isBlank blank).1⟩
  | dot behind =>
      intro b hb
      obtain rfl : '.' = b := by simpa using hb
      decide
  | opening idle => exact ⟨read, rfl, hposition⟩
  | closing idle apart =>
      intro b hb
      obtain rfl : ')' = b := by simpa using hb
      decide
  | letter idle fresh letter =>
      exact ⟨read, c, rfl, Text.isAlphanum_of_isAlpha letter, h.getLast?_ne_backslash idle⟩

/-- A bracket that the next character does not close at once is not at fault. -/
theorem faultlessBefore_length {chars : List Char} {c : Char} (h : p.Follows read)
    (hline : chars = read ++ c :: rest) (clean : FaultlessBefore chars (p.settled read.length))
    (idle : p.awaitsParameter = false) (apart : p.atBracket = true → c ≠ ')') :
    FaultlessBefore chars read.length := by
  cases p with
  | lambda i => simp [awaitsParameter] at idle
  | bracket i =>
      obtain ⟨before, rfl, rfl⟩ := h
      have hnext : chars[before.length + 1]? = some c := by simp [hline]
      rw [List.length_append, List.length_singleton, faultlessBefore_succ]
      refine ⟨clean, fun fault => not_faultAt_of_opening (by simp [hline]) ?_⟩
      rw [hnext]
      simpa using apart rfl
  | nothing => exact clean
  | parameter => exact clean
  | name reversed => exact clean

/-- A character read without a fault settles its position, or waits for the next one. -/
theorem settles {chars : List Char} {c : Char} {tokens : List Token} {next : Pending}
    (h : p.Follows read) (hline : chars = read ++ c :: rest)
    (clean : FaultlessBefore chars (p.settled read.length))
    (hreads : Reads read.length p c tokens next) :
    FaultlessBefore chars (next.settled (read.length + 1)) := by
  have here : chars[read.length]? = some c := by simp [hline]
  cases hreads with
  | parameter letter =>
      obtain ⟨before, rfl, rfl⟩ := h
      simp only [List.length_append, List.length_singleton] at here
      simp only [settled, List.length_append, List.length_singleton, faultlessBefore_succ]
      refine ⟨⟨clean, fun fault => ?_⟩, fun fault => not_faultAt_of_plain here (by simp [letter])⟩
      exact not_faultAt_of_backslash (by simp [hline]) here letter
  | continues word =>
      refine faultlessBefore_succ.mpr ⟨clean, fun fault => not_faultAt_of_word here word ?_⟩
      rw [hline]
      exact h.inName_iff.mp rfl
  | backslash idle => exact h.faultlessBefore_length hline clean idle (fun _ => by decide)
  | blank idle blank =>
      have hclose := (Text.ne_sign_of_isBlank blank).2.2.2
      exact faultlessBefore_succ.mpr ⟨h.faultlessBefore_length hline clean idle (fun _ => hclose),
        fun fault => not_faultAt_of_plain here (.inl blank)⟩
  | dot behind =>
      have idle := awaitsParameter_of_endsName behind
      refine faultlessBefore_succ.mpr
        ⟨h.faultlessBefore_length hline clean idle (fun _ => by decide), fun fault => ?_⟩
      exact not_faultAt_of_dot here (by rw [hline]; exact h.endsName_iff.mp behind)
  | opening idle => exact h.faultlessBefore_length hline clean idle (fun _ => by decide)
  | closing idle apart =>
      exact faultlessBefore_succ.mpr
        ⟨h.faultlessBefore_length hline clean idle (by simp [apart]),
          fun fault => not_faultAt_of_plain here (.inr (.inl rfl))⟩
  | letter idle fresh letter =>
      have hclose := (Text.ne_sign_of_isAlphanum (Text.isAlphanum_of_isAlpha letter)).2.2.2
      exact faultlessBefore_succ.mpr ⟨h.faultlessBefore_length hline clean idle (fun _ => hclose),
        fun fault => not_faultAt_of_plain here (.inr (.inr letter))⟩

/-- A character that is refused shows the first fault of the line. -/
theorem refuses {chars : List Char} {c : Char} {rejection : Rejection}
    (h : p.Follows read) (hline : chars = read ++ c :: rest)
    (clean : FaultlessBefore chars (p.settled read.length))
    (hrefuses : Refuses read.length p c rejection) :
    FaultAt chars rejection.position rejection.fault ∧
      FaultlessBefore chars rejection.position := by
  have here : chars[read.length]? = some c := by simp [hline]
  cases hrefuses with
  | blankAfterLambda blank =>
      obtain ⟨before, rfl, rfl⟩ := h
      exact ⟨.blankAfterLambda (by simp [hline]) (by simpa using here) blank, clean⟩
  | missingParameter blank letter =>
      obtain ⟨before, rfl, rfl⟩ := h
      simp only [List.length_append, List.length_singleton] at here
      refine ⟨.missingParameter (by simp [hline]) fun d hd => ?_, clean⟩
      obtain rfl : c = d := by simpa [here] using hd
      exact ⟨blank, letter⟩
  | emptyGroup =>
      obtain ⟨before, rfl, rfl⟩ := h
      exact ⟨.emptyGroup (by simp [hline]) (by simpa using here), clean⟩
  | leadingDigit idle fresh digit =>
      have hclose := (Text.ne_sign_of_isDigit digit).2.2.2
      refine ⟨.leadingDigit here digit ?_,
        h.faultlessBefore_length hline clean idle fun _ => hclose⟩
      rw [hline, ← h.inName_iff]
      simp [fresh]
  | misplacedDot idle behind =>
      refine ⟨.misplacedDot here ?_, h.faultlessBefore_length hline clean idle fun _ => by decide⟩
      rw [hline, ← h.endsName_iff]
      simp [behind]
  | illegalCharacter idle sign word blank =>
      exact ⟨.illegalCharacter here sign word blank,
        h.faultlessBefore_length hline clean idle fun _ => sign.2.2.2⟩

end Pending.Follows

/-! ### A whole scan -/

/-- A result agrees with the faults of a line: accepted without a fault, or rejected for the first
one. -/
def AgreesWithFaults (chars : List Char) : Except Rejection (List Token) → Prop
  | .ok _ => FaultlessBefore chars chars.length
  | .error rejection =>
      FaultAt chars rejection.position rejection.fault ∧ FaultlessBefore chars rejection.position

/-- At the end of a line a backslash lacks its parameter, and nothing else can be wrong. -/
theorem Scan.finish_agrees {chars : List Char} {scan : Scan} (h : scan.pending.Follows chars)
    (clean : FaultlessBefore chars (scan.pending.settled chars.length)) :
    AgreesWithFaults chars scan.finish := by
  obtain ⟨position, pending, emitted⟩ := scan
  cases pending with
  | lambda i =>
      obtain ⟨before, rfl, rfl⟩ := h
      exact ⟨.missingParameter (by simp) (by simp), clean⟩
  | bracket i =>
      obtain ⟨before, rfl, rfl⟩ := h
      simp only [finish, AgreesWithFaults, List.length_append, List.length_singleton,
        faultlessBefore_succ]
      exact ⟨clean, fun fault => not_faultAt_of_opening (by simp) (by simp)⟩
  | nothing => exact clean
  | parameter => exact clean
  | name reversed => exact clean

/-- From a scan that has met no fault, the rest of the line is accepted only if no position has a
fault, and rejected at the first position that has one. -/
theorem Scan.run_agrees {chars read rest : List Char} {scan : Scan} (hline : chars = read ++ rest)
    (hposition : scan.position = read.length) (h : scan.pending.Follows read)
    (clean : FaultlessBefore chars (scan.pending.settled read.length)) :
    AgreesWithFaults chars ((scan.run rest).bind finish) := by
  induction rest generalizing read scan with
  | nil =>
      obtain rfl : chars = read := by simpa using hline
      exact Scan.finish_agrees h clean
  | cons c rest ih =>
      rcases Pending.reads_or_refuses scan.pending scan.position c with
        ⟨tokens, next, hreads⟩ | ⟨rejection, hrefuses⟩
      · have hstep : scan.step c = .ok (scan.after tokens next) :=
          step_eq_ok_iff.mpr ⟨tokens, next, hreads, rfl⟩
        have hread : chars = (read ++ [c]) ++ rest := by simp [hline]
        rw [run_cons, hstep]
        refine ih hread (by simp [after, hposition]) (h.reads hposition hreads) ?_
        rw [hposition] at hreads
        simpa [after] using h.settles hline clean hreads
      · have hstep : scan.step c = .error rejection := step_eq_error_iff.mpr hrefuses
        rw [run_cons, hstep]
        rw [hposition] at hrefuses
        exact h.refuses hline clean hrefuses

/-- Behind the bracket check, the tokens of a line are those of its scan. -/
theorem tokenize_of_check {chars : List Char} (h : Brackets.check chars = .ok ()) :
    tokenize chars = ((Scan.start.run chars).bind Scan.finish).map Token.closeGroups := by
  simp only [tokenize, h, bind, Except.bind, pure, Except.pure]
  cases hrun : Scan.start.run chars with
  | error rejection => rfl
  | ok scan => cases hfinish : scan.finish <;> simp [Except.map, hfinish]

/-- A line whose brackets do not match is rejected for that, and not scanned. -/
theorem tokenize_of_check_eq_error {chars : List Char} {rejection : Rejection}
    (h : Brackets.check chars = .error rejection) : tokenize chars = .error rejection := by
  rw [tokenize, h]
  rfl

/-- **The scanner sees the faulty positions and no others.** A line that the bracket check rejects
has that rejection, whatever faults it has. Any other line is accepted exactly when no position has
a fault, and is rejected exactly at the first position that has one, for the fault it has there. -/
theorem tokenize_agrees_with_faults (chars : List Char) :
    (∀ rejection, Brackets.check chars = .error rejection → tokenize chars = .error rejection) ∧
      (Brackets.check chars = .ok () →
        ((∃ tokens, tokenize chars = .ok tokens) ↔ ∀ i fault, ¬ FaultAt chars i fault) ∧
          ∀ rejection, tokenize chars = .error rejection ↔
            FaultAt chars rejection.position rejection.fault ∧
              ∀ i < rejection.position, ∀ fault, ¬ FaultAt chars i fault) := by
  constructor
  · intro rejection hcheck
    simp [tokenize, hcheck, bind, Except.bind]
  · intro hcheck
    have hfresh : Scan.start.pending.Follows [] := by simp [Scan.start, Pending.Follows]
    have agrees : AgreesWithFaults chars ((Scan.start.run chars).bind Scan.finish) :=
      Scan.run_agrees rfl rfl hfresh (by simp [Scan.start, Pending.settled, FaultlessBefore])
    rw [tokenize_of_check hcheck]
    cases hresult : (Scan.start.run chars).bind Scan.finish with
    | ok tokens =>
        rw [hresult] at agrees
        have faultless : ∀ i fault, ¬ FaultAt chars i fault := by
          intro i fault h
          exact agrees i h.lt_length fault h
        constructor
        · exact ⟨fun _ => faultless, fun _ => ⟨_, rfl⟩⟩
        · intro rejection
          constructor
          · intro h
            cases h
          · rintro ⟨hfault, -⟩
            exact absurd hfault (faultless _ _)
    | error found =>
        rw [hresult] at agrees
        obtain ⟨hfault, hfirst⟩ := agrees
        constructor
        · constructor
          · rintro ⟨tokens, h⟩
            cases h
          · intro h
            exact absurd hfault (h _ _)
        · intro rejection
          constructor
          · intro h
            cases h
            exact ⟨hfault, hfirst⟩
          · rintro ⟨hfault', hfirst'⟩
            obtain ⟨hposition, hkind⟩ := hfault.first_unique hfirst hfault' hfirst'
            obtain ⟨fault', position'⟩ := rejection
            obtain ⟨fault, position⟩ := found
            simp only at hposition hkind
            rw [hposition, hkind]
            rfl

/-- In `3)` the bracket goes before the digit, and in `\x1 ()` the digit before the empty group. -/
theorem faults_reported_in_order :
    (Brackets.check ['3', ')'] = .error ⟨.unmatchedClosing, 1⟩ ∧
      tokenize ['3', ')'] = .error ⟨.unmatchedClosing, 1⟩) ∧
    (Brackets.check ['\\', 'x', '1', ' ', '(', ')'] = .ok () ∧
      FaultAt ['\\', 'x', '1', ' ', '(', ')'] 2 .leadingDigit ∧
      ∀ i < 2, ∀ fault, ¬ FaultAt ['\\', 'x', '1', ' ', '(', ')'] i fault) := by
  have hcheck : Brackets.check ['\\', 'x', '1', ' ', '(', ')'] = .ok () := rfl
  refine ⟨⟨rfl, (tokenize_agrees_with_faults _).1 _ rfl⟩, hcheck, ?_⟩
  exact (((tokenize_agrees_with_faults _).2 hcheck).2 ⟨.leadingDigit, 2⟩).mp rfl

end LambdaSyntax
