import LambdaSyntax.Proofs.Juxtaposition
import LambdaSyntax.Proofs.Lexemes

/-!
White space within a line.

White space completes what is pending, and the scan goes on as it would behind nothing. So it can
stand wherever what is pending and the next character do not depend on each other
(`Pending.ApartFrom`): the scan of the rest is then the same, further on. In an accepted line there
are three places where they do. A backslash has its parameter directly behind it, a dot its name
directly before it, and the letters and digits of a name stand together. A bracket that is closed at
once would be a fourth, but no accepted line has one.

* `Pending.read_of_apartFrom`: a character that does not depend on what is pending is read as it is
  behind nothing.
* `Scan.finish_run_blanks_append`: white space moves the rest of the line, and does nothing else.
* `Scan.tokens_ne_of_name`: white space within a name cuts it.
* `where_blanks_matter`: the places of an accepted line where white space changes its result.
-/

namespace LambdaSyntax

/-- The characters at and before position `p` belong together. -/
inductive HeldTogether (chars : List Char) (p : Nat) : Prop where
  /-- A backslash and its parameter. -/
  | parameter (behind : charBefore chars p 1 = some '\\')
  /-- A name, or a parameter, and its dot. -/
  | dot (here : chars[p]? = some '.')
  /-- Two characters of one name. -/
  | name {c : Char} (here : chars[p]? = some c) (word : c.isAlphanum = true)
      (behind : FollowsWordChar chars p) (apart : charBefore chars p 2 ≠ some '\\')

/-! ### Characters apart from what is pending -/

namespace Pending

/-- The character neither continues nor ends what is pending, other than by starting afresh. -/
structure ApartFrom (p : Pending) (c : Char) : Prop where
  idle : p.awaitsParameter = false
  name : p.inName = true → c.isAlphanum = false
  bracket : p.atBracket = true → c ≠ ')'
  dot : c ≠ '.'

/-- **What starts afresh is read as it is behind nothing**, and what is pending is complete with
it. -/
theorem read_of_apartFrom {p : Pending} {c : Char} (h : p.ApartFrom c) (position : Nat) :
    p.read position c =
      (Pending.nothing.read position c).map fun (tokens, next) => (p.flush ++ tokens, next) := by
  have hstart : start p.endsName position c = Pending.nothing.read position c := by
    simp [read, start, h.dot]
  rw [read_of_idle h.idle h.name h.bracket, hstart]

/-- An opening bracket that is read without a fault is not closed at once. -/
theorem Reads.ne_closing {position : Nat} {p next : Pending} {c : Char} {tokens : List Token}
    (h : Reads position p c tokens next) (hbracket : p.atBracket = true) : c ≠ ')' := by
  rintro rfl
  cases h with
  | parameter letter => cases letter
  | continues word => cases word
  | blank idle blank => cases blank
  | letter idle fresh letter => cases letter
  | closing idle apart =>
      rw [hbracket] at apart
      cases apart

end Pending

namespace Scan

/-- The scan with what is pending complete. -/
def flushed (scan : Scan) : Scan :=
  ⟨scan.position, .nothing, scan.tokens.reverse⟩

@[simp] theorem tokens_flushed (scan : Scan) : scan.flushed.tokens = scan.tokens := by
  simp [flushed, Scan.tokens, Pending.flush]

section Flushed

variable {scan : Scan}

theorem step_flushed {c : Char} (h : scan.pending.ApartFrom c) :
    scan.flushed.step c = scan.step c := by
  simp only [step, flushed, Pending.read_of_apartFrom h]
  cases Pending.nothing.read scan.position c with
  | error rejection => rfl
  | ok found => simp [Except.map, Scan.tokens]

/-- What is pending may as well be complete, if what follows does not depend on it. -/
theorem finish_run_flushed {line : List Char} (idle : scan.pending.awaitsParameter = false)
    (h : ∀ c ∈ line.head?, scan.pending.ApartFrom c) :
    (scan.flushed.run line).bind finish = (scan.run line).bind finish := by
  cases line with
  | nil =>
      have hflushed : scan.flushed.finish = .ok scan.tokens :=
        finish_eq_ok_iff.mpr ⟨rfl, (tokens_flushed scan).symm⟩
      exact hflushed.trans (finish_eq_ok_iff.mpr ⟨idle, rfl⟩).symm
  | cons c rest => rw [run_cons, step_flushed (h c rfl), run_cons]

/-- **White space completes what is pending and moves the rest of the line.** -/
theorem finish_run_blanks_append {blanks : List Char} (idle : scan.pending.awaitsParameter = false)
    (hne : blanks ≠ []) (hblank : ∀ c ∈ blanks, Text.isBlank c = true) (line : List Char) :
    (scan.run (blanks ++ line)).bind finish =
      shifted blanks.length id ((scan.flushed.run line).bind finish) := by
  have hblanks : scan.run blanks = .ok (scan.flushed.behind blanks.length []) := by
    simp [run_blanks idle hne hblank, flushed, behind, Pending.shift]
  rw [run_append, hblanks]
  exact finish_run_behind blanks.length [] scan.flushed line

/-- **White space within a name cuts it.** The name that the scan goes on with is longer than the
one that it would complete. -/
theorem tokens_ne_of_name {reversed line : List Char} {c : Char} {last last' : Scan}
    (hpending : scan.pending = .name reversed) (hc : c.isAlphanum = true)
    (h : scan.run (c :: line) = .ok last) (h' : scan.flushed.run (c :: line) = .ok last') :
    Token.closeGroups last'.tokens ≠ Token.closeGroups last.tokens := by
  obtain ⟨found, next, hreads, hrest⟩ := run_cons_eq_ok_iff.mp h
  rw [hpending] at hreads
  obtain ⟨rfl, rfl⟩ := hreads.unique (.continues hc)
  obtain ⟨text, behind, htokens, hlonger⟩ := exists_name_of_run rfl hrest
  obtain ⟨behind', htokens'⟩ := emitted_prefix_of_run h'
  -- The name with `c` in it and the name without it are the tokens at the same index.
  have hwith : (Token.closeGroups last.tokens)[scan.emitted.length]? = some (.name text) := by
    rw [Token.closeGroups, htokens]
    simp [after]
  have hwithout : (Token.closeGroups last'.tokens)[scan.emitted.length]? =
      some (.name (String.ofList reversed.reverse)) := by
    rw [Token.closeGroups, ← htokens']
    simp [flushed, Scan.tokens, hpending, Pending.flush]
  intro hequal
  rw [hequal, hwith, Option.some.injEq, Token.name.injEq] at hwithout
  have hlength := hlonger.length_le
  rw [hwithout, String.toList_ofList, List.length_reverse, List.length_reverse,
    List.length_cons] at hlength
  omega

end Flushed

end Scan

namespace Brackets

/-- Characters other than brackets do not matter to whether the brackets of a line match. -/
theorem checkFrom_insert_eq_ok_iff {plain : List Char} (h : ∀ c ∈ plain, c ≠ '(' ∧ c ≠ ')')
    {position : Nat} {opened : List Nat} {first second : List Char} :
    checkFrom position opened (first ++ plain ++ second) = .ok () ↔
      checkFrom position opened (first ++ second) = .ok () := by
  induction first generalizing position opened with
  | nil => simp only [List.nil_append, checkFrom_plain_append h, checkFrom_eq_ok_iff]
  | cons c first ih =>
      simp only [List.cons_append]
      by_cases hopening : c = '('
      · subst hopening
        simp only [checkFrom_opening, ih]
      · by_cases hclosing : c = ')'
        · subst hclosing
          cases opened with
          | nil => exact Iff.rfl
          | cons innermost outer => simp only [checkFrom_closing, ih]
        · simp only [checkFrom_plain hopening hclosing, ih]

theorem check_insert_blanks {first second blanks : List Char}
    (h : check (first ++ second) = .ok ()) (hblank : ∀ c ∈ blanks, Text.isBlank c = true) :
    check (first ++ blanks ++ second) = .ok () :=
  (checkFrom_insert_eq_ok_iff fun c hc => (Text.ne_sign_of_isBlank (hblank c hc)).2.2).mpr h

end Brackets

/-! ### White space in an accepted line -/

/-- What is pending tells whether the characters around it belong together. -/
theorem Pending.Follows.heldTogether_iff {p : Pending} {first : List Char} (h : p.Follows first)
    (second : List Char) :
    HeldTogether (first ++ second) first.length ↔
      p.awaitsParameter = true ∨
        ∃ c ∈ second.head?, c = '.' ∨ (p.inName = true ∧ c.isAlphanum = true) := by
  have hnext : (first ++ second)[first.length]? = second.head? := by
    rw [List.getElem?_append_right (Nat.le_refl _), Nat.sub_self, List.head?_eq_getElem?]
  constructor
  · rintro (hbefore | hdot | ⟨hc, hword, hbehind, hapart⟩)
    · rw [charBefore_one] at hbefore
      exact .inl (h.awaitsParameter_iff.mpr hbefore)
    · exact .inr ⟨'.', hnext.symm.trans hdot, .inl rfl⟩
    · exact .inr ⟨_, hnext.symm.trans hc, .inr ⟨h.inName_iff.mpr ⟨hbehind, hapart⟩, hword⟩⟩
  · rintro (awaits | ⟨c, hc, rfl | ⟨hname, hword⟩⟩)
    · refine .parameter ?_
      rw [charBefore_one]
      exact h.awaitsParameter_iff.mp awaits
    · exact .dot (hnext.trans hc)
    · obtain ⟨hbehind, hapart⟩ := h.inName_iff.mp hname
      exact .name (hnext.trans hc) hword hbehind hapart

section Insert

variable {first second blanks : List Char} {middle : Scan} (hne : blanks ≠ [])
  (hblank : ∀ c ∈ blanks, Text.isBlank c = true)
  (hcheck : Brackets.check (first ++ second) = .ok ()) (hmiddle : Scan.start.run first = .ok middle)
include hne hblank hcheck hmiddle

/-- White space between a backslash and its parameter is reported at the backslash. -/
theorem tokenize_insert_of_awaitsParameter (awaits : middle.pending.awaitsParameter = true) :
    tokenize (first ++ blanks ++ second) = .error ⟨.blankAfterLambda, first.length - 1⟩ := by
  have hpending := Scan.pending_of_awaitsParameter hmiddle awaits
  have hrun : Scan.start.run (first ++ blanks) = .error ⟨.blankAfterLambda, first.length - 1⟩ := by
    rw [Scan.run_append, hmiddle]
    exact Scan.run_blanks_of_lambda hpending hne hblank
  rw [tokenize_of_check (Brackets.check_insert_blanks hcheck hblank), Scan.run_append, hrun]
  rfl

/-- Anywhere else, the scan goes on behind the white space with nothing pending. -/
theorem tokenize_insert_of_idle (idle : middle.pending.awaitsParameter = false) :
    tokenize (first ++ blanks ++ second) =
      (shifted blanks.length id ((middle.flushed.run second).bind Scan.finish)).map
        Token.closeGroups := by
  rw [tokenize_of_check (Brackets.check_insert_blanks hcheck hblank), List.append_assoc,
    Scan.run_append, hmiddle]
  exact congrArg _ (Scan.finish_run_blanks_append idle hne hblank second)

/-- White space between a name and its dot is reported at the dot. -/
theorem tokenize_insert_of_dot (idle : middle.pending.awaitsParameter = false)
    (hdot : second.head? = some '.') :
    tokenize (first ++ blanks ++ second) =
      .error ⟨.misplacedDot, first.length + blanks.length⟩ := by
  obtain ⟨rest, rfl⟩ := List.head?_eq_some_iff.mp hdot
  have hrefuses : Pending.Refuses middle.position .nothing '.' ⟨.misplacedDot, middle.position⟩ :=
    .misplacedDot rfl rfl
  have hrun : middle.flushed.run ('.' :: rest) = .error ⟨.misplacedDot, middle.position⟩ :=
    Scan.run_eq_error_iff.mpr ⟨[], '.', rest, _, rfl, rfl, hrefuses⟩
  rw [tokenize_insert_of_idle hne hblank hcheck hmiddle idle, hrun,
    (Scan.follows_of_run hmiddle).1]
  rfl

/-- White space within a name changes the tokens, or makes the rest of the name start with a
digit. -/
theorem tokenize_insert_of_inName (hname : middle.pending.inName = true) {c : Char}
    (hhead : second.head? = some c) (hc : c.isAlphanum = true) {last : Scan}
    (hlast : middle.run second = .ok last) :
    tokenize (first ++ blanks ++ second) ≠ .ok (Token.closeGroups last.tokens) := by
  obtain ⟨reversed, hpending⟩ := Pending.exists_eq_name_of_inName hname
  obtain ⟨rest, rfl⟩ := List.head?_eq_some_iff.mp hhead
  have idle : middle.pending.awaitsParameter = false := by rw [hpending]; rfl
  rw [tokenize_insert_of_idle hne hblank hcheck hmiddle idle]
  intro hequal
  cases hresult : (middle.flushed.run (c :: rest)).bind Scan.finish with
  | error rejection =>
      rw [hresult] at hequal
      cases hequal
  | ok found =>
      obtain ⟨last', hlast', -, rfl⟩ := Scan.finish_run_eq_ok_iff.mp hresult
      rw [hresult] at hequal
      exact Scan.tokens_ne_of_name hpending hc hlast hlast' (Except.ok.inj hequal)

/-- **White space between characters that are apart changes nothing** but the position of a
rejection behind it. -/
theorem tokenize_insert_of_apartFrom (idle : middle.pending.awaitsParameter = false)
    (hapart : ∀ c ∈ second.head?, middle.pending.ApartFrom c) :
    tokenize (first ++ blanks ++ second) =
      shifted blanks.length id (tokenize (first ++ second)) := by
  rw [tokenize_insert_of_idle hne hblank hcheck hmiddle idle, Scan.finish_run_flushed idle hapart,
    tokenize_of_check hcheck, Scan.run_append, hmiddle]
  change _ = shifted blanks.length id (((middle.run second).bind Scan.finish).map Token.closeGroups)
  cases (middle.run second).bind Scan.finish with
  | error rejection => rfl
  | ok found => rfl

end Insert

/-- Characters that do not belong together are apart, where the line goes on without a fault. -/
theorem Scan.apartFrom_of_run {scan last : Scan} {line : List Char}
    (h : scan.run line = .ok last) (idle : scan.pending.awaitsParameter = false)
    (hapart : ¬ ∃ c ∈ line.head?, c = '.' ∨ (scan.pending.inName = true ∧ c.isAlphanum = true)) :
    ∀ c ∈ line.head?, scan.pending.ApartFrom c := by
  intro c hc
  obtain ⟨rest, rfl⟩ := List.head?_eq_some_iff.mp hc
  obtain ⟨tokens, next, hreads, -⟩ := run_cons_eq_ok_iff.mp h
  have hnone : ¬ (c = '.' ∨ (scan.pending.inName = true ∧ c.isAlphanum = true)) :=
    fun hsome => hapart ⟨c, rfl, hsome⟩
  exact ⟨idle, fun hname => Bool.eq_false_iff.mpr fun hword => hnone (.inr ⟨hname, hword⟩),
    hreads.ne_closing, fun hdot => hnone (.inl hdot)⟩

/-- **Where white space matters.** White space in an accepted line leaves its tokens as they are,
unless it comes between a backslash and its parameter, between a name or a parameter and its dot, or
into the middle of a name. The first two are rejected, for the white space at the backslash and for
the dot where it stands now. -/
theorem where_blanks_matter {chars blanks : List Char} {tokens : List Token} {p : Nat}
    (h : tokenize chars = .ok tokens) (hp : p ≤ chars.length) (hne : blanks ≠ [])
    (hblank : ∀ c ∈ blanks, Text.isBlank c = true) :
    let inserted := chars.take p ++ blanks ++ chars.drop p
    (tokenize inserted = .ok tokens ↔ ¬ HeldTogether chars p) ∧
      (charBefore chars p 1 = some '\\' →
        tokenize inserted = .error ⟨.blankAfterLambda, p - 1⟩) ∧
      (chars[p]? = some '.' →
        tokenize inserted = .error ⟨.misplacedDot, p + blanks.length⟩) := by
  have haccepted := h
  obtain ⟨hcheck, last, hlast, -, rfl⟩ := tokenize_eq_ok_iff.mp h
  obtain ⟨first, second, rfl, rfl⟩ : ∃ first second, chars = first ++ second ∧ p = first.length :=
    ⟨chars.take p, chars.drop p, (List.take_append_drop p chars).symm,
      (List.length_take_of_le hp).symm⟩
  obtain ⟨middle, hmiddle, hrest⟩ := Scan.run_append_eq_ok_iff.mp hlast
  have hfollows := (Scan.follows_of_run hmiddle).2
  have hparameter := tokenize_insert_of_awaitsParameter hne hblank hcheck hmiddle
  have hdot : second.head? = some '.' → tokenize (first ++ blanks ++ second) =
      .error ⟨.misplacedDot, first.length + blanks.length⟩ := by
    intro hhead
    obtain ⟨rest, rfl⟩ := List.head?_eq_some_iff.mp hhead
    obtain ⟨found, next, hreads, -⟩ := Scan.run_cons_eq_ok_iff.mp hrest
    have idle := Pending.awaitsParameter_of_endsName hreads.of_dot.1
    exact tokenize_insert_of_dot hne hblank hcheck hmiddle idle hhead
  rw [List.take_left, List.drop_left, hfollows.heldTogether_iff, charBefore_one,
    ← hfollows.awaitsParameter_iff, List.getElem?_append_right (Nat.le_refl _), Nat.sub_self,
    ← List.head?_eq_getElem?]
  refine ⟨⟨?together, ?apart⟩, hparameter, hdot⟩
  case together =>
    rintro hsame (awaits | ⟨c, hhead, rfl | ⟨hname, hword⟩⟩)
    · rw [hparameter awaits] at hsame
      cases hsame
    · rw [hdot hhead] at hsame
      cases hsame
    · exact tokenize_insert_of_inName hne hblank hcheck hmiddle hname hhead hword hrest hsame
  case apart =>
    intro hapart
    obtain ⟨hawaits, hnone⟩ := not_or.mp hapart
    have idle : middle.pending.awaitsParameter = false := Bool.eq_false_iff.mpr hawaits
    rw [tokenize_insert_of_apartFrom hne hblank hcheck hmiddle idle
      (Scan.apartFrom_of_run hrest idle hnone), haccepted, shifted_ok]
    rfl

/-- White space between the parameter and the name of `\xy2.(z)` changes nothing. Within the name
it does, behind the backslash it is at fault, and before the dot the dot is. -/
theorem blanks_in_dotted_line :
    let line := ['\\', 'x', 'y', '2', '.', '(', 'z', ')']
    let tokens :=
      [.lambda, .name "x", .name "y2", .opening, .opening, .name "z", .closing, .closing]
    let blanks := [' ', '\u3000']
    (tokenize line = .ok tokens ∧ ∀ c ∈ blanks, Text.isBlank c = true) ∧
      (tokenize ['\\', 'x', ' ', '\u3000', 'y', '2', '.', '(', 'z', ')'] = .ok tokens ∧
        ¬ HeldTogether line 2) ∧
      (HeldTogether line 3 ∧ tokenize (line.take 3 ++ blanks ++ line.drop 3) ≠ .ok tokens) ∧
      tokenize (line.take 1 ++ blanks ++ line.drop 1) = .error ⟨.blankAfterLambda, 0⟩ ∧
      tokenize (line.take 4 ++ blanks ++ line.drop 4) = .error ⟨.misplacedDot, 6⟩ := by
  intro line tokens blanks
  have haccepted : tokenize line = .ok tokens := rfl
  have hne : blanks ≠ [] := List.cons_ne_nil _ _
  have hblank : ∀ c ∈ blanks, Text.isBlank c = true :=
    List.forall_mem_cons.mpr ⟨rfl, List.forall_mem_singleton.mpr rfl⟩
  have hname : HeldTogether line 3 := .name rfl rfl ⟨'y', rfl, rfl⟩ (by decide)
  have hmatters : ∀ p ≤ line.length, _ := fun p hp =>
    where_blanks_matter haccepted hp hne hblank
  exact ⟨⟨haccepted, hblank⟩, ⟨rfl, (hmatters 2 (by decide)).1.mp rfl⟩,
    ⟨hname, fun hsame => (hmatters 3 (by decide)).1.mp hsame hname⟩,
    (hmatters 1 (by decide)).2.1 rfl, (hmatters 4 (by decide)).2.2 rfl⟩

end LambdaSyntax
