import LambdaSyntax.Tokenization

/-!
What the scanner does with one character, as a relation.

`Pending.Reads` lists the eight ways in which a character is read without a fault: what must be
pending, which tokens are complete with the character, and what is pending after it.
`Pending.read_eq_ok_iff` says that the scanner's step reads exactly so; proofs about accepted lines
split its cases and never unfold the step.

* `Scan.run_invariant`: what holds of the empty scan and is kept by every reading holds of every
  scan that meets no fault.
* `tokenize_eq_ok_iff`: a line is accepted when its brackets match, its scan meets no fault and no
  backslash stands last; its tokens are those of the scan with the open groups closed.
-/

namespace LambdaSyntax

/-! ### Character classes exclude each other -/

namespace Text

theorem isDigit_iff {c : Char} : c.isDigit = true ↔ 48 ≤ c.toNat ∧ c.toNat ≤ 57 := by
  simp [Char.isDigit, UInt32.le_iff_toNat_le, ← Char.toNat_val]

theorem isAlpha_iff {c : Char} :
    c.isAlpha = true ↔ (65 ≤ c.toNat ∧ c.toNat ≤ 90) ∨ (97 ≤ c.toNat ∧ c.toNat ≤ 122) := by
  have hupper : c.isUpper = decide (c.val ≥ 'A'.val ∧ c.val ≤ 'Z'.val) := rfl
  have hlower : c.isLower = (c.val ≥ 'a'.val && c.val ≤ 'z'.val) := rfl
  have halpha : c.isAlpha = (c.isUpper || c.isLower) := rfl
  rw [halpha, hupper, hlower]
  simp [UInt32.le_iff_toNat_le, ← Char.toNat_val]

theorem isAlphanum_iff {c : Char} : c.isAlphanum = true ↔ c.isAlpha = true ∨ c.isDigit = true := by
  simp [Char.isAlphanum]

theorem isAlphanum_of_isAlpha {c : Char} (h : c.isAlpha = true) : c.isAlphanum = true :=
  isAlphanum_iff.mpr (.inl h)

theorem isDigit_eq_false_of_isAlpha {c : Char} (h : c.isAlpha = true) : c.isDigit = false := by
  rw [isAlpha_iff] at h
  rw [Bool.eq_false_iff, ne_eq, isDigit_iff]
  omega

theorem isBlank_eq_false_of_isAlphanum {c : Char} (h : c.isAlphanum = true) :
    isBlank c = false := by
  rw [Bool.eq_false_iff]
  intro hblank
  obtain ⟨range, hmem, hfirst, hlast⟩ := Ranges.covers_eq_true_iff.mp hblank
  rw [isAlphanum_iff, isAlpha_iff, isDigit_iff] at h
  simp only [blankRanges, List.mem_cons, List.not_mem_nil, or_false] at hmem
  rcases hmem with rfl | rfl | rfl | rfl | rfl | rfl | rfl | rfl | rfl | rfl <;> grind

/-- A letter or digit is none of the four signs of the notation. -/
theorem ne_sign_of_isAlphanum {c : Char} (h : c.isAlphanum = true) :
    c ≠ '\\' ∧ c ≠ '.' ∧ c ≠ '(' ∧ c ≠ ')' := by
  refine ⟨?_, ?_, ?_, ?_⟩ <;> (rintro rfl; revert h; decide)

theorem ne_sign_of_isDigit {c : Char} (h : c.isDigit = true) :
    c ≠ '\\' ∧ c ≠ '.' ∧ c ≠ '(' ∧ c ≠ ')' :=
  ne_sign_of_isAlphanum (isAlphanum_iff.mpr (.inr h))

/-- White space is none of the four signs either. -/
theorem ne_sign_of_isBlank {c : Char} (h : isBlank c = true) :
    c ≠ '\\' ∧ c ≠ '.' ∧ c ≠ '(' ∧ c ≠ ')' := by
  refine ⟨?_, ?_, ?_, ?_⟩ <;> (rintro rfl; revert h; decide)

theorem isAlphanum_eq_false_of_isBlank {c : Char} (h : isBlank c = true) :
    c.isAlphanum = false := by
  rw [Bool.eq_false_iff]
  intro hword
  rw [isBlank_eq_false_of_isAlphanum hword] at h
  cases h

end Text

namespace Pending

/-- Whether a backslash waits for its parameter. -/
def awaitsParameter : Pending → Bool
  | .lambda _ => true
  | _ => false

/-- Whether an opening bracket stands just before the next character. -/
def atBracket : Pending → Bool
  | .bracket _ => true
  | _ => false

/-- Whether the next character may continue a name. -/
def inName : Pending → Bool
  | .name _ => true
  | _ => false

/-- Only a backslash waits for a parameter. -/
theorem exists_eq_lambda_of_awaitsParameter {p : Pending} (h : p.awaitsParameter = true) :
    ∃ backslash, p = .lambda backslash := by
  cases p with
  | lambda backslash => exact ⟨backslash, rfl⟩
  | nothing => cases h
  | parameter => cases h
  | bracket opening => cases h
  | name reversed => cases h

/-- Only a name goes on. -/
theorem exists_eq_name_of_inName {p : Pending} (h : p.inName = true) :
    ∃ reversed, p = .name reversed := by
  cases p with
  | name reversed => exact ⟨reversed, rfl⟩
  | nothing => cases h
  | lambda backslash => cases h
  | parameter => cases h
  | bracket opening => cases h

theorem awaitsParameter_of_endsName {p : Pending} (h : p.endsName = true) :
    p.awaitsParameter = false := by
  cases p <;> simp_all [endsName, awaitsParameter]

/-- The readings without a fault: with `pending` before it, the character `c` at `position`
completes `tokens` and leaves `next`. -/
inductive Reads (position : Nat) : Pending → Char → List Token → Pending → Prop where
  | parameter {backslash : Nat} {c : Char} (letter : c.isAlpha = true) :
      Reads position (.lambda backslash) c [.lambda, .name (String.singleton c)] .parameter
  | continues {reversed : List Char} {c : Char} (word : c.isAlphanum = true) :
      Reads position (.name reversed) c [] (.name (c :: reversed))
  | backslash {p : Pending} (idle : p.awaitsParameter = false) :
      Reads position p '\\' p.flush (.lambda position)
  | blank {p : Pending} {c : Char} (idle : p.awaitsParameter = false)
      (blank : Text.isBlank c = true) : Reads position p c p.flush .nothing
  | dot {p : Pending} (behind : p.endsName = true) :
      Reads position p '.' (p.flush ++ [.opening]) .nothing
  | opening {p : Pending} (idle : p.awaitsParameter = false) :
      Reads position p '(' (p.flush ++ [.opening]) (.bracket position)
  | closing {p : Pending} (idle : p.awaitsParameter = false) (apart : p.atBracket = false) :
      Reads position p ')' (p.flush ++ [.closing]) .nothing
  | letter {p : Pending} {c : Char} (idle : p.awaitsParameter = false) (fresh : p.inName = false)
      (letter : c.isAlpha = true) : Reads position p c [] (.name [c])

/-- The readings with a fault. Those of a backslash and of an opening bracket show only with the
character after it, and are reported at its position. -/
inductive Refuses (position : Nat) : Pending → Char → Rejection → Prop where
  | blankAfterLambda {backslash : Nat} {c : Char} (blank : Text.isBlank c = true) :
      Refuses position (.lambda backslash) c ⟨.blankAfterLambda, backslash⟩
  | missingParameter {backslash : Nat} {c : Char} (blank : Text.isBlank c = false)
      (letter : c.isAlpha = false) :
      Refuses position (.lambda backslash) c ⟨.missingParameter, backslash⟩
  | emptyGroup {bracket : Nat} : Refuses position (.bracket bracket) ')' ⟨.emptyGroup, bracket⟩
  | leadingDigit {p : Pending} {c : Char} (idle : p.awaitsParameter = false)
      (fresh : p.inName = false) (digit : c.isDigit = true) :
      Refuses position p c ⟨.leadingDigit, position⟩
  | misplacedDot {p : Pending} (idle : p.awaitsParameter = false) (behind : p.endsName = false) :
      Refuses position p '.' ⟨.misplacedDot, position⟩
  | illegalCharacter {p : Pending} {c : Char} (idle : p.awaitsParameter = false)
      (sign : c ≠ '\\' ∧ c ≠ '.' ∧ c ≠ '(' ∧ c ≠ ')') (word : c.isAlphanum = false)
      (blank : Text.isBlank c = false) : Refuses position p c ⟨.illegalCharacter c, position⟩

/-! ### A character that starts afresh, class by class -/

section Start

variable {afterName : Bool} {position : Nat} {c : Char}

theorem start_backslash : start afterName position '\\' = .ok ([], .lambda position) := rfl

theorem start_of_isBlank (h : Text.isBlank c = true) :
    start afterName position c = .ok ([], .nothing) := by
  simp [start, Text.ne_sign_of_isBlank h, h]

theorem start_of_isDigit (h : c.isDigit = true) :
    start afterName position c = .error ⟨.leadingDigit, position⟩ := by
  have hword : c.isAlphanum = true := Text.isAlphanum_iff.mpr (.inr h)
  simp [start, Text.ne_sign_of_isAlphanum hword, Text.isBlank_eq_false_of_isAlphanum hword, h]

theorem start_dot :
    start afterName position '.' =
      if afterName then .ok ([.opening], .nothing) else .error ⟨.misplacedDot, position⟩ := by
  have hblank : Text.isBlank '.' = false := rfl
  simp [start, hblank]

theorem start_opening : start afterName position '(' = .ok ([.opening], .bracket position) := by
  have hblank : Text.isBlank '(' = false := rfl
  simp [start, hblank]

theorem start_closing : start afterName position ')' = .ok ([.closing], .nothing) := by
  have hblank : Text.isBlank ')' = false := rfl
  simp [start, hblank]

theorem start_of_isAlpha (h : c.isAlpha = true) :
    start afterName position c = .ok ([], .name [c]) := by
  have hword := Text.isAlphanum_of_isAlpha h
  simp [start, Text.ne_sign_of_isAlphanum hword, Text.isBlank_eq_false_of_isAlphanum hword,
    Text.isDigit_eq_false_of_isAlpha h, h]

/-- What is left are the characters that do not occur in the notation. -/
theorem start_of_illegal (hsign : c ≠ '\\' ∧ c ≠ '.' ∧ c ≠ '(' ∧ c ≠ ')')
    (hword : c.isAlphanum = false) (hblank : Text.isBlank c = false) :
    start afterName position c = .error ⟨.illegalCharacter c, position⟩ := by
  obtain ⟨halpha, hdigit⟩ : c.isAlpha = false ∧ c.isDigit = false := by
    simpa [Char.isAlphanum] using hword
  simp [start, hsign, hblank, hdigit, halpha]

end Start

/-- Every character falls into one of the classes above. -/
theorem char_cases (c : Char) :
    c = '\\' ∨ Text.isBlank c = true ∨ c.isDigit = true ∨ c = '.' ∨ c = '(' ∨ c = ')' ∨
      c.isAlpha = true ∨
        ((c ≠ '\\' ∧ c ≠ '.' ∧ c ≠ '(' ∧ c ≠ ')') ∧ c.isAlphanum = false ∧
          Text.isBlank c = false) := by
  by_cases hword : c.isAlphanum = true
  · rcases Text.isAlphanum_iff.mp hword with halpha | hdigit
    · simp [halpha]
    · simp [hdigit]
  · simp only [Bool.not_eq_true] at hword
    cases hblank : Text.isBlank c with
    | true => simp
    | false =>
        by_cases hsign : c = '\\' ∨ c = '.' ∨ c = '(' ∨ c = ')'
        · rcases hsign with h | h | h | h <;> simp [h]
        · simp only [not_or] at hsign
          simp [hsign, hword]

/-! ### Reading agrees with the relation -/

/-- Where no parameter is due, no name goes on and no bracket is closed at once, reading is starting
afresh behind the token that is complete now. -/
theorem read_of_idle {p : Pending} {position : Nat} {c : Char} (idle : p.awaitsParameter = false)
    (ends : p.inName = true → c.isAlphanum = false) (apart : p.atBracket = true → c ≠ ')') :
    p.read position c =
      (start p.endsName position c).map fun (tokens, next) => (p.flush ++ tokens, next) := by
  have hnil : ∀ result : Except Rejection (List Token × Pending),
      (result.map fun (tokens, next) => ([] ++ tokens, next)) = result := by
    intro result
    cases result <;> rfl
  cases p with
  | nothing => exact (hnil _).symm
  | lambda backslash => simp [awaitsParameter] at idle
  | parameter => exact (hnil _).symm
  | bracket position =>
      simp only [read, apart rfl, ↓reduceIte]
      exact (hnil _).symm
  | name reversed => simp [read, ends rfl, endsName]

/-- A sign other than a closing bracket always starts afresh. -/
theorem read_of_sign {p : Pending} {position : Nat} {c : Char} (idle : p.awaitsParameter = false)
    (sign : c = '\\' ∨ c = '.' ∨ c = '(') :
    p.read position c =
      (start p.endsName position c).map fun (tokens, next) => (p.flush ++ tokens, next) := by
  have apart : c.isAlphanum = false ∧ c ≠ ')' := by
    rcases sign with rfl | rfl | rfl
    all_goals decide
  exact read_of_idle idle (fun _ => apart.1) (fun _ => apart.2)

theorem read_of_reads {p next : Pending} {position : Nat} {c : Char} {tokens : List Token}
    (h : Reads position p c tokens next) : p.read position c = .ok (tokens, next) := by
  cases h with
  | parameter letter =>
      simp [read, letter, Text.isBlank_eq_false_of_isAlphanum (Text.isAlphanum_of_isAlpha letter)]
  | continues word => simp [read, word]
  | backslash idle =>
      rw [read_of_sign idle (.inl rfl), start_backslash]
      simp [Except.map]
  | blank idle blank =>
      rw [read_of_idle idle (fun _ => Text.isAlphanum_eq_false_of_isBlank blank)
        (fun _ => (Text.ne_sign_of_isBlank blank).2.2.2), start_of_isBlank blank]
      simp [Except.map]
  | dot behind =>
      have idle := awaitsParameter_of_endsName behind
      rw [read_of_sign idle (.inr (.inl rfl)), start_dot]
      simp [Except.map, behind]
  | opening idle =>
      rw [read_of_sign idle (.inr (.inr rfl)), start_opening]
      simp [Except.map]
  | closing idle apart =>
      rw [read_of_idle idle (fun _ => rfl) (by simp [apart]), start_closing]
      simp [Except.map]
  | letter idle fresh letter =>
      have hflush : p.flush = [] := by cases p <;> simp_all [inName, flush]
      have hclose : c ≠ ')' :=
        (Text.ne_sign_of_isAlphanum (Text.isAlphanum_of_isAlpha letter)).2.2.2
      rw [read_of_idle idle (by simp [fresh]) (fun _ => hclose), start_of_isAlpha letter]
      simp [Except.map, hflush]

theorem read_of_refuses {p : Pending} {position : Nat} {c : Char} {rejection : Rejection}
    (h : Refuses position p c rejection) : p.read position c = .error rejection := by
  cases h with
  | blankAfterLambda blank => simp [read, blank]
  | missingParameter blank letter => simp [read, blank, letter]
  | emptyGroup => simp [read]
  | leadingDigit idle fresh digit =>
      have hword := Text.isAlphanum_iff.mpr (.inr digit)
      rw [read_of_idle idle (by simp [fresh]) (fun _ => (Text.ne_sign_of_isAlphanum hword).2.2.2),
        start_of_isDigit digit]
      simp [Except.map]
  | misplacedDot idle behind =>
      rw [read_of_sign idle (.inr (.inl rfl)), start_dot]
      simp [Except.map, behind]
  | illegalCharacter idle sign word blank =>
      rw [read_of_idle idle (fun _ => word) (fun _ => sign.2.2.2), start_of_illegal sign word blank]
      simp [Except.map]

/-- Every reading is one of those listed. -/
theorem reads_or_refuses (p : Pending) (position : Nat) (c : Char) :
    (∃ tokens next, Reads position p c tokens next) ∨
      ∃ rejection, Refuses position p c rejection := by
  cases hidle : p.awaitsParameter with
  | true =>
      obtain ⟨backslash, rfl⟩ := exists_eq_lambda_of_awaitsParameter hidle
      cases hblank : Text.isBlank c with
      | true => exact .inr ⟨_, .blankAfterLambda hblank⟩
      | false =>
          cases hletter : c.isAlpha with
          | true => exact .inl ⟨_, _, .parameter hletter⟩
          | false => exact .inr ⟨_, .missingParameter hblank hletter⟩
  | false =>
      rcases char_cases c with
        rfl | hblank | hdigit | rfl | rfl | rfl | hletter | ⟨hsign, hword, hblank⟩
      · exact .inl ⟨_, _, .backslash hidle⟩
      · exact .inl ⟨_, _, .blank hidle hblank⟩
      · cases hname : p.inName with
        | true =>
            obtain ⟨reversed, rfl⟩ := exists_eq_name_of_inName hname
            exact .inl ⟨_, _, .continues (Text.isAlphanum_iff.mpr (.inr hdigit))⟩
        | false => exact .inr ⟨_, .leadingDigit hidle hname hdigit⟩
      · cases hbehind : p.endsName with
        | true => exact .inl ⟨_, _, .dot hbehind⟩
        | false => exact .inr ⟨_, .misplacedDot hidle hbehind⟩
      · exact .inl ⟨_, _, .opening hidle⟩
      · cases hbracket : p.atBracket with
        | true =>
            obtain ⟨bracket, rfl⟩ : ∃ bracket, p = .bracket bracket := by
              cases p <;> simp_all [atBracket]
            exact .inr ⟨_, .emptyGroup⟩
        | false => exact .inl ⟨_, _, .closing hidle hbracket⟩
      · cases hname : p.inName with
        | true =>
            obtain ⟨reversed, rfl⟩ := exists_eq_name_of_inName hname
            exact .inl ⟨_, _, .continues (Text.isAlphanum_of_isAlpha hletter)⟩
        | false => exact .inl ⟨_, _, .letter hidle hname hletter⟩
      · exact .inr ⟨_, .illegalCharacter hidle hsign hword hblank⟩

/-- **A character is read without a fault exactly in the eight ways listed.** -/
theorem read_eq_ok_iff {p next : Pending} {position : Nat} {c : Char} {tokens : List Token} :
    p.read position c = .ok (tokens, next) ↔ Reads position p c tokens next := by
  constructor
  · intro h
    rcases reads_or_refuses p position c with ⟨tokens', next', hreads⟩ | ⟨rejection, hrefuses⟩
    · rw [read_of_reads hreads] at h
      cases h
      exact hreads
    · rw [read_of_refuses hrefuses] at h
      cases h
  · exact read_of_reads

/-- **A character is refused exactly in the six ways listed.** -/
theorem read_eq_error_iff {p : Pending} {position : Nat} {c : Char} {rejection : Rejection} :
    p.read position c = .error rejection ↔ Refuses position p c rejection := by
  constructor
  · intro h
    rcases reads_or_refuses p position c with ⟨tokens, next, hreads⟩ | ⟨rejection', hrefuses⟩
    · rw [read_of_reads hreads] at h
      cases h
    · rw [read_of_refuses hrefuses] at h
      cases h
      exact hrefuses
  · exact read_of_refuses

end Pending

/-! ### Scans -/

namespace Scan

/-- The scan after a character read without a fault. -/
def after (scan : Scan) (tokens : List Token) (next : Pending) : Scan :=
  ⟨scan.position + 1, next, tokens.reverse ++ scan.emitted⟩

/-- The tokens of a scan, the pending name included. -/
def tokens (scan : Scan) : List Token :=
  scan.emitted.reverse ++ scan.pending.flush

theorem step_eq_ok_iff {scan later : Scan} {c : Char} :
    scan.step c = .ok later ↔
      ∃ tokens next, Pending.Reads scan.position scan.pending c tokens next ∧
        later = scan.after tokens next := by
  constructor
  · intro h
    unfold step at h
    cases hread : scan.pending.read scan.position c with
    | error rejection => simp [hread] at h
    | ok found =>
        obtain ⟨tokens, next⟩ := found
        simp only [hread, Except.ok.injEq] at h
        exact ⟨tokens, next, Pending.read_eq_ok_iff.mp hread, h.symm⟩
  · rintro ⟨tokens, next, hreads, rfl⟩
    simp [step, Pending.read_eq_ok_iff.mpr hreads, after]

theorem step_eq_error_iff {scan : Scan} {c : Char} {rejection : Rejection} :
    scan.step c = .error rejection ↔
      Pending.Refuses scan.position scan.pending c rejection := by
  rw [← Pending.read_eq_error_iff, step]
  cases scan.pending.read scan.position c with
  | error rejection' => simp
  | ok found => simp

theorem run_cons_eq_ok_iff {scan last : Scan} {c : Char} {line : List Char} :
    scan.run (c :: line) = .ok last ↔
      ∃ tokens next, Pending.Reads scan.position scan.pending c tokens next ∧
        (scan.after tokens next).run line = .ok last := by
  rw [run_cons]
  cases hstep : scan.step c with
  | error rejection =>
      simp only [Except.bind, reduceCtorEq, false_iff]
      rintro ⟨tokens, next, hreads, -⟩
      rw [step_eq_ok_iff.mpr ⟨tokens, next, hreads, rfl⟩] at hstep
      cases hstep
  | ok later =>
      obtain ⟨tokens, next, hreads, rfl⟩ := step_eq_ok_iff.mp hstep
      constructor
      · intro h
        exact ⟨tokens, next, hreads, h⟩
      · rintro ⟨tokens', next', hreads', h⟩
        rw [step_eq_ok_iff.mpr ⟨tokens', next', hreads', rfl⟩] at hstep
        rw [← Except.ok.inj hstep]
        exact h

/-- A scan that meets no fault meets none in the first part of its line. -/
theorem run_append_eq_ok_iff {scan last : Scan} {first second : List Char} :
    scan.run (first ++ second) = .ok last ↔
      ∃ middle, scan.run first = .ok middle ∧ middle.run second = .ok last := by
  rw [run_append]
  cases scan.run first with
  | error rejection => simp [Except.bind]
  | ok middle => simp [Except.bind]

/-- **What every reading keeps, every scan has.** `P read scan` relates the characters read so far
to the scan after them. -/
theorem run_invariant {P : List Char → Scan → Prop} {first last : Scan} {line : List Char}
    (empty : P [] first)
    (keeps : ∀ {read scan c tokens next}, P read scan →
      Pending.Reads scan.position scan.pending c tokens next →
        P (read ++ [c]) (scan.after tokens next))
    (h : first.run line = .ok last) : P line last := by
  suffices ∀ read scan, P read scan → scan.run line = .ok last → P (read ++ line) last by
    simpa using this [] first empty h
  clear h empty
  induction line with
  | nil =>
      intro read scan hread h
      cases h
      simpa using hread
  | cons c rest ih =>
      intro read scan hread h
      obtain ⟨tokens, next, hreads, hrest⟩ := run_cons_eq_ok_iff.mp h
      simpa using ih (read ++ [c]) _ (keeps hread hreads) hrest

theorem finish_eq_ok_iff {scan : Scan} {tokens : List Token} :
    scan.finish = .ok tokens ↔ scan.pending.awaitsParameter = false ∧ tokens = scan.tokens := by
  obtain ⟨position, pending, emitted⟩ := scan
  cases pending <;>
    simp [finish, Scan.tokens, Pending.awaitsParameter, Pending.flush, eq_comm]

/-- Scanning `line` from here gives `tokens`, and leaves no backslash to wait. -/
def Yields (scan : Scan) (line : List Char) (tokens : List Token) : Prop :=
  ∃ last, scan.run line = .ok last ∧ last.pending.awaitsParameter = false ∧
    last.tokens = scan.tokens ++ tokens

theorem yields_nil {scan : Scan} (h : scan.pending.awaitsParameter = false) :
    scan.Yields [] [] :=
  ⟨scan, rfl, h, by simp⟩

/-- One character that is read without a fault, and what the rest of the line yields behind it. -/
theorem Yields.cons {scan : Scan} {c : Char} {line : List Char} {found tokens : List Token}
    {next : Pending} (hreads : Pending.Reads scan.position scan.pending c found next)
    (hrest : (scan.after found next).Yields line tokens) {all : List Token}
    (hall : (scan.after found next).tokens ++ tokens = scan.tokens ++ all) :
    scan.Yields (c :: line) all := by
  obtain ⟨last, hrun, hlast, htokens⟩ := hrest
  exact ⟨last, run_cons_eq_ok_iff.mpr ⟨found, next, hreads, hrun⟩, hlast, htokens.trans hall⟩

end Scan

/-- **Acceptance.** A line is accepted when its brackets match, its scan meets no fault and no
backslash stands last; its tokens are those of the scan with the open groups closed. -/
theorem tokenize_eq_ok_iff {line : List Char} {tokens : List Token} :
    tokenize line = .ok tokens ↔
      Brackets.check line = .ok () ∧ ∃ scan, Scan.start.run line = .ok scan ∧
        scan.pending.awaitsParameter = false ∧ tokens = Token.closeGroups scan.tokens := by
  unfold tokenize
  cases hcheck : Brackets.check line with
  | error rejection => simp [bind, Except.bind]
  | ok _ =>
      cases hrun : Scan.start.run line with
      | error rejection => simp [bind, Except.bind]
      | ok scan =>
          cases hfinish : scan.finish with
          | error rejection =>
              have hlast : scan.pending.awaitsParameter ≠ false := by
                intro h
                rw [Scan.finish_eq_ok_iff.mpr ⟨h, rfl⟩] at hfinish
                cases hfinish
              simp [bind, Except.bind, hfinish, hlast]
          | ok found =>
              obtain ⟨hlast, hfound⟩ := Scan.finish_eq_ok_iff.mp hfinish
              simp only [bind, Except.bind, pure, Except.pure, hfinish, hfound, Except.ok.injEq,
                exists_eq_left', hlast, true_and]
              exact eq_comm

end LambdaSyntax
