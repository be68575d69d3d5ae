import Mathlib.Data.List.TakeDrop
import LambdaSyntax.Proofs.Groups
import LambdaSyntax.Proofs.Trimming

/-!
The characters of a line in the texts of its tokens.

`condensed` is a line without its white space and with each dot as the bracket it stands for. That
is what the texts of the tokens say, one directly behind the other (`Token.concatenated`), up to the
closings that are added at the end. Between two characters the scanner has read what the tokens
complete so far say and, behind it, what is pending (`Pending.soFar`).

So each character that is no white space stands in the text of one token, which counting finds
without looking at the scanner (`Token.TakesUp`). Letters and digits side by side stand in the same
name unless the first of them is a parameter.

* `Scan.spells_of_run`: the invariant, for every scan without a fault.
* `Token.existsUnique_takesUp`: each character belongs to one token.
* `Scan.exists_name_of_run`: what a pending name has read stays together in one name.
* `texts_account_for_line`: all of this for the tokens of an accepted line.
-/

namespace LambdaSyntax

/-- A character as the text of its token has it: a dot is an opening bracket. -/
def bracketed (c : Char) : Char :=
  if c = '.' then '(' else c

/-- A line without white space, each dot written as an opening bracket. -/
def condensed (chars : List Char) : List Char :=
  (chars.filter fun c => !Text.isBlank c).map bracketed

@[simp] theorem condensed_append (first second : List Char) :
    condensed (first ++ second) = condensed first ++ condensed second := by
  simp [condensed]

theorem condensed_of_isBlank {c : Char} (h : Text.isBlank c = true) : condensed [c] = [] := by
  simp [condensed, h]

theorem condensed_of_not_isBlank {c : Char} (h : Text.isBlank c = false) :
    condensed [c] = [bracketed c] := by
  simp [condensed, h]

theorem bracketed_of_isAlphanum {c : Char} (h : c.isAlphanum = true) : bracketed c = c :=
  if_neg (Text.ne_sign_of_isAlphanum h).2.1

theorem condensed_of_isAlphanum {c : Char} (h : c.isAlphanum = true) : condensed [c] = [c] := by
  rw [condensed_of_not_isBlank (Text.isBlank_eq_false_of_isAlphanum h), bracketed_of_isAlphanum h]

/-- A character that is no white space is the next one behind those before it. -/
theorem getElem?_condensed {chars : List Char} {i : Nat} {c : Char} (hc : chars[i]? = some c)
    (hblank : Text.isBlank c = false) :
    (condensed chars)[(condensed (chars.take i)).length]? = some (bracketed c) := by
  obtain ⟨hi, rfl⟩ := List.getElem?_eq_some_iff.mp hc
  have hsplit : chars = chars.take i ++ ([chars[i]] ++ chars.drop (i + 1)) := by simp
  have hcondensed := congrArg condensed hsplit
  rw [condensed_append, condensed_append, condensed_of_not_isBlank hblank] at hcondensed
  rw [hcondensed]
  simp

namespace Token

/-- The literal texts of some tokens, one directly behind the other. -/
def concatenated (tokens : List Token) : List Char :=
  tokens.flatMap fun token => token.text.toList

/-- The token at index `j` has the character at position `i` of the line in its text: it has it
where as many characters come before it in the texts as in the line, white space left out. -/
def TakesUp (chars : List Char) (tokens : List Token) (i j : Nat) : Prop :=
  ∃ c token k, chars[i]? = some c ∧ tokens[j]? = some token ∧
    token.text.toList[k]? = some (bracketed c) ∧
    (concatenated (tokens.take j)).length + k = (condensed (chars.take i)).length

@[simp] theorem concatenated_append (first second : List Token) :
    concatenated (first ++ second) = concatenated first ++ concatenated second :=
  List.flatMap_append

theorem concatenated_cons (token : Token) (tokens : List Token) :
    concatenated (token :: tokens) = token.text.toList ++ concatenated tokens :=
  List.flatMap_cons

theorem concatenated_closeGroups (tokens : List Token) :
    concatenated (closeGroups tokens) =
      concatenated tokens ++ List.replicate (unclosed tokens) ')' := by
  have hclosings : ∀ n, concatenated (List.replicate n .closing) = List.replicate n ')' := by
    intro n
    induction n with
    | zero => rfl
    | succ n ih =>
        rw [List.replicate_succ, concatenated_cons, ih]
        rfl
  rw [closeGroups, concatenated_append, hclosings]

/-- More tokens have longer texts. -/
theorem length_concatenated_take_le (tokens : List Token) {j n : Nat} (h : j ≤ n) :
    (concatenated (tokens.take j)).length ≤ (concatenated (tokens.take n)).length := by
  obtain ⟨m, rfl⟩ := Nat.exists_eq_add_of_le h
  rw [List.take_add, concatenated_append, List.length_append]
  exact Nat.le_add_right _ _

/-- Each character of the texts stands in one of them. -/
theorem exists_getElem?_text {tokens : List Token} {n : Nat} {c : Char}
    (h : (concatenated tokens)[n]? = some c) :
    ∃ j token k, tokens[j]? = some token ∧ token.text.toList[k]? = some c ∧
      (concatenated (tokens.take j)).length + k = n := by
  induction tokens generalizing n with
  | nil => cases h
  | cons token rest ih =>
      rw [concatenated_cons] at h
      by_cases hn : n < token.text.toList.length
      · rw [List.getElem?_append_left hn] at h
        exact ⟨0, token, n, rfl, h, Nat.zero_add n⟩
      · rw [List.getElem?_append_right (by omega)] at h
        obtain ⟨j, found, k, hfound, hk, hlength⟩ := ih h
        refine ⟨j + 1, found, k, hfound, hk, ?_⟩
        rw [List.take_succ_cons, concatenated_cons, List.length_append]
        omega

section TakesUp

variable {chars : List Char} {tokens : List Token} {i j : Nat}

/-- The character stands behind the texts before the token's, and before their end. -/
theorem TakesUp.bounds (h : TakesUp chars tokens i j) :
    (concatenated (tokens.take j)).length ≤ (condensed (chars.take i)).length ∧
      (condensed (chars.take i)).length < (concatenated (tokens.take (j + 1))).length := by
  obtain ⟨c, token, k, -, hj, hk, hlength⟩ := h
  have hinside : k < token.text.toList.length := (List.getElem?_eq_some_iff.mp hk).1
  rw [List.take_add_one, hj, concatenated_append, List.length_append]
  simp only [Option.toList_some, concatenated, List.flatMap_singleton] at hlength ⊢
  omega

theorem TakesUp.unique {j' : Nat} (h : TakesUp chars tokens i j) (h' : TakesUp chars tokens i j') :
    j = j' := by
  have hbounds := h.bounds
  have hbounds' := h'.bounds
  rcases Nat.lt_trichotomy j j' with hlt | heq | hgt
  · have := length_concatenated_take_le tokens (show j + 1 ≤ j' from hlt)
    omega
  · exact heq
  · have := length_concatenated_take_le tokens (show j' + 1 ≤ j from hgt)
    omega

section Cut

variable {read rest : List Char} {emitted behind : List Token}

/-- Where the line and its tokens can be cut, what stands behind the cut in the line does so in the
tokens, -/
theorem TakesUp.le_of_cut (hcut : concatenated emitted = condensed read) (hi : read.length ≤ i)
    (h : TakesUp (read ++ rest) (emitted ++ behind) i j) : emitted.length ≤ j := by
  have hbounds := h.bounds.2
  by_contra hlt
  have hle := length_concatenated_take_le (emitted ++ behind) (show j + 1 ≤ emitted.length by omega)
  rw [List.take_left, hcut] at hle
  rw [List.take_append, List.take_of_length_le hi, condensed_append, List.length_append] at hbounds
  omega

/-- and what stands before it, if it is no white space, does so too. -/
theorem TakesUp.lt_of_cut (hcut : concatenated emitted = condensed read) {c : Char}
    (hc : read[i]? = some c) (hblank : Text.isBlank c = false)
    (h : TakesUp (read ++ rest) (emitted ++ behind) i j) : j < emitted.length := by
  have hi : i < read.length := (List.getElem?_eq_some_iff.mp hc).1
  have hinside := (List.getElem?_eq_some_iff.mp (getElem?_condensed hc hblank)).1
  have hbounds := h.bounds.1
  by_contra hle
  have hlength := length_concatenated_take_le (emitted ++ behind)
    (show emitted.length ≤ j by omega)
  rw [List.take_left, hcut] at hlength
  rw [List.take_append_of_le_length hi.le] at hbounds
  omega

end Cut

/-- **Each character that is no white space belongs to one token**, when the texts of the tokens say
what the line says. -/
theorem existsUnique_takesUp {added : List Char} {c : Char}
    (htexts : concatenated tokens = condensed chars ++ added) (hc : chars[i]? = some c)
    (hblank : Text.isBlank c = false) : ∃! j, TakesUp chars tokens i j := by
  have hcondensed := getElem?_condensed hc hblank
  have hinside := (List.getElem?_eq_some_iff.mp hcondensed).1
  have hat : (concatenated tokens)[(condensed (chars.take i)).length]? = some (bracketed c) := by
    rw [htexts, List.getElem?_append_left hinside]
    exact hcondensed
  obtain ⟨j, token, k, hj, hk, hlength⟩ := exists_getElem?_text hat
  exact ⟨j, ⟨c, token, k, hc, hj, hk, hlength⟩, fun j' h' =>
    h'.unique ⟨c, token, k, hc, hj, hk, hlength⟩⟩

end TakesUp

end Token

/-! ### What a scan has read -/

namespace Pending

/-- The characters read that no token has yet. -/
def soFar : Pending → List Char
  | .lambda _ => ['\\']
  | .name reversed => reversed.reverse
  | _ => []

theorem concatenated_flush {p : Pending} (idle : p.awaitsParameter = false) :
    Token.concatenated p.flush = p.soFar := by
  cases p with
  | lambda position => cases idle
  | name reversed => simp [flush, soFar, Token.concatenated, Token.text]
  | nothing => rfl
  | parameter => rfl
  | bracket position => rfl

/-- **One character is lost only if it is white space**, and otherwise is in the tokens completed or
pending. -/
theorem Reads.spells {position : Nat} {p next : Pending} {c : Char} {tokens : List Token}
    (h : Reads position p c tokens next) :
    p.soFar ++ condensed [c] = Token.concatenated tokens ++ next.soFar := by
  cases h with
  | parameter letter =>
      rw [condensed_of_isAlphanum (Text.isAlphanum_of_isAlpha letter)]
      simp [soFar, Token.concatenated, Token.text]
  | continues word =>
      rw [condensed_of_isAlphanum word]
      simp [soFar, Token.concatenated]
  | backslash idle =>
      rw [concatenated_flush idle]
      rfl
  | blank idle blank =>
      rw [concatenated_flush idle, condensed_of_isBlank blank]
      rfl
  | dot behind =>
      rw [Token.concatenated_append, concatenated_flush (awaitsParameter_of_endsName behind),
        List.append_assoc]
      rfl
  | opening idle =>
      rw [Token.concatenated_append, concatenated_flush idle, List.append_assoc]
      rfl
  | closing idle apart =>
      rw [Token.concatenated_append, concatenated_flush idle, List.append_assoc]
      rfl
  | letter idle fresh letter =>
      have hsoFar : p.soFar = [] := by
        cases p <;> simp_all [awaitsParameter, inName, soFar]
      rw [hsoFar, condensed_of_isAlphanum (Text.isAlphanum_of_isAlpha letter)]
      rfl

/-- A letter or digit that is no parameter stays pending. -/
theorem Reads.of_isAlphanum {position : Nat} {p next : Pending} {c : Char} {tokens : List Token}
    (h : Reads position p c tokens next) (word : c.isAlphanum = true)
    (idle : p.awaitsParameter = false) : tokens = [] ∧ ∃ reversed, next = .name reversed := by
  cases h with
  | parameter _ => cases idle
  | continues _ => exact ⟨rfl, _, rfl⟩
  | letter _ fresh letter => exact ⟨rfl, _, rfl⟩
  | backslash _ => cases word
  | dot behind => cases word
  | opening _ => cases word
  | closing _ apart => cases word
  | blank _ blank =>
      rw [Text.isAlphanum_eq_false_of_isBlank blank] at word
      cases word

/-- A pending name goes on or becomes a token. -/
theorem Reads.of_name {position : Nat} {reversed : List Char} {next : Pending} {c : Char}
    {tokens : List Token} (h : Reads position (.name reversed) c tokens next) :
    (tokens = [] ∧ next = .name (c :: reversed)) ∨
      ∃ behind, tokens = .name (String.ofList reversed.reverse) :: behind := by
  cases h with
  | continues word => exact .inl ⟨rfl, rfl⟩
  | backslash idle => exact .inr ⟨[], rfl⟩
  | blank idle blank => exact .inr ⟨[], rfl⟩
  | dot behind => exact .inr ⟨[.opening], rfl⟩
  | opening idle => exact .inr ⟨[.opening], rfl⟩
  | closing idle apart => exact .inr ⟨[.closing], rfl⟩
  | letter idle fresh letter => cases fresh

/-- Behind a backslash only the parameter is read, which is complete at once. -/
theorem Reads.of_lambda {position backslash : Nat} {next : Pending} {c : Char}
    {tokens : List Token} (h : Reads position (.lambda backslash) c tokens next) :
    tokens = [.lambda, .name (String.singleton c)] ∧ next = .parameter := by
  cases h with
  | parameter letter => exact ⟨rfl, rfl⟩
  | backslash idle => cases idle
  | blank idle blank => cases idle
  | dot behind => cases behind
  | opening idle => cases idle
  | closing idle apart => cases idle
  | letter idle fresh letter => cases idle

/-- A parameter is due exactly behind a backslash. -/
theorem Follows.awaitsParameter_iff {p : Pending} {read : List Char} (h : p.Follows read) :
    p.awaitsParameter = true ↔ read.getLast? = some '\\' := by
  constructor
  · intro awaits
    obtain ⟨backslash, rfl⟩ := exists_eq_lambda_of_awaitsParameter awaits
    obtain ⟨before, rfl, -⟩ := h
    exact List.getLast?_concat
  · intro hlast
    by_contra idle
    exact h.getLast?_ne_backslash (by simpa using idle) hlast

end Pending

namespace Scan

open LambdaSyntax.Token

/-- **The tokens complete so far and what is pending say what was read.** -/
theorem spells_of_run {chars : List Char} {scan : Scan} (h : Scan.start.run chars = .ok scan) :
    concatenated scan.emitted.reverse ++ scan.pending.soFar = condensed chars := by
  refine run_invariant (P := fun read scan =>
    concatenated scan.emitted.reverse ++ scan.pending.soFar = condensed read) rfl ?_ h
  intro read scan c tokens next hread hreads
  rw [reverse_emitted_after, concatenated_append, condensed_append, ← hread, List.append_assoc,
    List.append_assoc, hreads.spells]
  rfl

theorem concatenated_tokens {chars : List Char} {scan : Scan} (h : Scan.start.run chars = .ok scan)
    (idle : scan.pending.awaitsParameter = false) :
    concatenated scan.tokens = condensed chars := by
  rw [Scan.tokens, concatenated_append, Pending.concatenated_flush idle, spells_of_run h]

/-- Tokens once complete stay as they are. -/
theorem emitted_prefix_of_run {scan last : Scan} {chars : List Char}
    (h : scan.run chars = .ok last) : scan.emitted.reverse <+: last.tokens := by
  have hemitted : scan.emitted.reverse <+: last.emitted.reverse := by
    refine run_invariant (P := fun _ later => scan.emitted.reverse <+: later.emitted.reverse)
      (List.prefix_refl _) ?_ h
    intro read later c tokens next hlater _
    rw [reverse_emitted_after]
    exact hlater.trans (List.prefix_append _ _)
  exact hemitted.trans (List.prefix_append _ _)

/-- **What a pending name has read stays together in one name**, the next one of the tokens. -/
theorem exists_name_of_run {scan last : Scan} {chars reversed : List Char}
    (hpending : scan.pending = .name reversed) (h : scan.run chars = .ok last) :
    ∃ text behind, last.tokens = scan.emitted.reverse ++ .name text :: behind ∧
      reversed.reverse <+: text.toList := by
  induction chars generalizing scan reversed with
  | nil =>
      cases h
      refine ⟨String.ofList reversed.reverse, [], ?_, by simp⟩
      rw [Scan.tokens, hpending]
      rfl
  | cons c chars ih =>
      obtain ⟨tokens, next, hreads, hrest⟩ := run_cons_eq_ok_iff.mp h
      rw [hpending] at hreads
      rcases hreads.of_name with ⟨rfl, rfl⟩ | ⟨behind, rfl⟩
      · obtain ⟨text, behind, htokens, htext⟩ := ih rfl hrest
        rw [List.reverse_cons] at htext
        exact ⟨text, behind, htokens, (List.prefix_append _ _).trans htext⟩
      · obtain ⟨more, hmore⟩ := emitted_prefix_of_run hrest
        refine ⟨String.ofList reversed.reverse, behind ++ more, ?_, by simp⟩
        rw [← hmore, reverse_emitted_after]
        simp

end Scan

/-! ### Letters and digits side by side -/

/-- A letter or digit behind another one, with the line around them. -/
theorem exists_split_of_followsWordChar {chars : List Char} {i : Nat} {c : Char}
    (hc : chars[i]? = some c) (h : FollowsWordChar chars i) :
    ∃ before b rest, chars = before ++ b :: c :: rest ∧ i = before.length + 1 ∧
      b.isAlphanum = true ∧ charBefore chars i 2 = before.getLast? := by
  obtain ⟨b, hb, hword⟩ := h
  rw [charBefore] at hb
  split at hb
  · obtain ⟨k, rfl⟩ : ∃ k, i = k + 1 := ⟨i - 1, by omega⟩
    obtain ⟨hk, rfl⟩ := List.getElem?_eq_some_iff.mp hb
    obtain ⟨hi, rfl⟩ := List.getElem?_eq_some_iff.mp hc
    have hline : chars = chars.take k ++ chars[k] :: chars[k + 1] :: chars.drop (k + 2) := by simp
    have hlength : (chars.take k).length = k := List.length_take_of_le hk.le
    have htwo := charBefore_two (chars.take k) (chars[k + 1] :: chars.drop (k + 2)) chars[k]
    rw [List.length_append, List.length_singleton, hlength, List.append_assoc,
      List.singleton_append, ← hline] at htwo
    exact ⟨chars.take k, chars[k], chars.drop (k + 2), hline, by rw [hlength], hword, htwo⟩
  · cases hb

section SideBySide

open LambdaSyntax.Token

variable {before rest : List Char} {b c : Char} {tokens : List Token} {first last : Scan}

/-- A parameter is a name of its own, so what follows it stands in another token. -/
theorem not_takesUp_of_awaitsParameter (hfirst : Scan.start.run before = .ok first)
    (hlast : first.run (b :: c :: rest) = .ok last)
    (awaits : first.pending.awaitsParameter = true) (hb : b.isAlphanum = true)
    (htokens : last.tokens <+: tokens) (j : Nat) :
    ¬ (TakesUp (before ++ b :: c :: rest) tokens before.length j ∧
      TakesUp (before ++ b :: c :: rest) tokens (before.length + 1) j) := by
  obtain ⟨backslash, hpending⟩ := Pending.exists_eq_lambda_of_awaitsParameter awaits
  obtain ⟨found, next, hreads, hrest⟩ := Scan.run_cons_eq_ok_iff.mp hlast
  have hparameter := hreads
  rw [hpending] at hparameter
  obtain ⟨rfl, rfl⟩ := hparameter.of_lambda
  -- The tokens complete with the parameter say just what was read up to it.
  let second := first.after [.lambda, .name (String.singleton b)] .parameter
  have hsecond : Scan.start.run (before ++ [b]) = .ok second := by
    rw [Scan.run_append, hfirst]
    exact Scan.run_cons_eq_ok_iff.mpr ⟨_, _, hreads, rfl⟩
  have hcut := Scan.spells_of_run hsecond
  rw [show second.pending.soFar = [] from rfl, List.append_nil] at hcut
  obtain ⟨behind, rfl⟩ := (Scan.emitted_prefix_of_run hrest).trans htokens
  have hline : before ++ b :: c :: rest = (before ++ [b]) ++ c :: rest := by simp
  rw [hline]
  rintro ⟨hhere, hbehind⟩
  have hlt := hhere.lt_of_cut hcut (List.getElem?_concat_length ..)
    (Text.isBlank_eq_false_of_isAlphanum hb)
  have hle := hbehind.le_of_cut hcut (by simp)
  omega

/-- Letters and digits side by side stand in the same name where no parameter is due. -/
theorem exists_name_takesUp (hfirst : Scan.start.run before = .ok first)
    (hlast : first.run (b :: c :: rest) = .ok last)
    (idle : first.pending.awaitsParameter = false) (hb : b.isAlphanum = true)
    (hc : c.isAlphanum = true) (htokens : last.tokens <+: tokens) :
    ∃ j text, tokens[j]? = some (.name text) ∧
      TakesUp (before ++ b :: c :: rest) tokens before.length j ∧
      TakesUp (before ++ b :: c :: rest) tokens (before.length + 1) j := by
  obtain ⟨found, next, hreads, hbehind⟩ := Scan.run_cons_eq_ok_iff.mp hlast
  obtain ⟨rfl, reversed, rfl⟩ := hreads.of_isAlphanum hb idle
  obtain ⟨found, next, hreads', hrest⟩ := Scan.run_cons_eq_ok_iff.mp hbehind
  obtain ⟨rfl, reversed', rfl⟩ := hreads'.of_isAlphanum hc rfl
  -- The name that is pending now holds both characters, behind what was pending before them.
  have hthird : Scan.start.run (before ++ [b, c]) =
      .ok ((first.after [] (.name reversed)).after [] (.name reversed')) := by
    rw [Scan.run_append, hfirst]
    exact Scan.run_cons_eq_ok_iff.mpr
      ⟨_, _, hreads, Scan.run_cons_eq_ok_iff.mpr ⟨_, _, hreads', rfl⟩⟩
  have hbefore := Scan.spells_of_run hfirst
  have hname : reversed'.reverse = first.pending.soFar ++ [b, c] := by
    have hspells := Scan.spells_of_run hthird
    rw [condensed_append, ← hbefore, List.append_assoc] at hspells
    have hpair : condensed [b, c] = [b, c] := by
      rw [show [b, c] = [b] ++ [c] from rfl, condensed_append, condensed_of_isAlphanum hb,
        condensed_of_isAlphanum hc]
    rw [hpair] at hspells
    exact List.append_cancel_left hspells
  obtain ⟨text, behind, hall, more, htext⟩ := Scan.exists_name_of_run rfl hrest
  obtain ⟨added, rfl⟩ := htokens
  have hline : before ++ b :: c :: rest = (before ++ [b]) ++ c :: rest := by simp
  have htokens : last.tokens ++ added =
      first.emitted.reverse ++ .name text :: (behind ++ added) := by
    rw [hall, List.append_assoc]
    rfl
  rw [hname, List.append_assoc] at htext
  rw [htokens]
  refine ⟨first.emitted.reverse.length, text, by simp, ?_, ?_⟩
  · refine ⟨b, .name text, first.pending.soFar.length, by simp, by simp, ?_, ?_⟩
    · rw [Token.text, ← htext, bracketed_of_isAlphanum hb]
      simp
    · rw [List.take_left, List.take_left, ← hbefore, List.length_append]
  · refine ⟨c, .name text, first.pending.soFar.length + 1, by simp, by simp, ?_, ?_⟩
    · rw [Token.text, ← htext, bracketed_of_isAlphanum hc, List.getElem?_append_right (by omega)]
      simp
    · have hread : (before ++ [b] ++ c :: rest).take (before.length + 1) = before ++ [b] :=
        List.take_left' (by simp)
      rw [hline, hread, List.take_left, condensed_append, condensed_of_isAlphanum hb, ← hbefore]
      simp

end SideBySide

/-- **No character is lost, and none is made up.** The texts of the tokens of a line say what the
line says without its white space, dots as brackets, and then close the groups of the dots. So each
other character belongs to one token. Letters and digits side by side belong to the same name unless
the first of them is the parameter of a backslash. -/
theorem texts_account_for_line {chars : List Char} {tokens : List Token}
    (h : tokenize chars = .ok tokens) :
    Token.concatenated tokens = condensed chars ++ List.replicate (chars.count '.') ')' ∧
    (∀ i c, chars[i]? = some c → Text.isBlank c = false → ∃! j, Token.TakesUp chars tokens i j) ∧
    ∀ i c, chars[i]? = some c → c.isAlphanum = true → FollowsWordChar chars i →
      ((∃ j text, tokens[j]? = some (.name text) ∧ Token.TakesUp chars tokens (i - 1) j ∧
        Token.TakesUp chars tokens i j) ↔ charBefore chars i 2 ≠ some '\\') := by
  obtain ⟨hcheck, last, hrun, hidle, rfl⟩ := tokenize_eq_ok_iff.mp h
  have htexts : Token.concatenated (Token.closeGroups last.tokens) =
      condensed chars ++ List.replicate (chars.count '.') ')' := by
    rw [Token.concatenated_closeGroups, Scan.concatenated_tokens hrun hidle,
      Scan.unclosed_tokens hcheck hrun]
  refine ⟨htexts, fun i c => Token.existsUnique_takesUp htexts, ?_⟩
  intro i c hc hword hbehind
  obtain ⟨before, b, rest, rfl, rfl, hb, htwo⟩ := exists_split_of_followsWordChar hc hbehind
  obtain ⟨first, hfirst, hlast⟩ := Scan.run_append_eq_ok_iff.mp hrun
  have hfollows := (Scan.follows_of_run hfirst).2
  have hclosed : last.tokens <+: Token.closeGroups last.tokens := List.prefix_append _ _
  rw [htwo, Nat.add_sub_cancel, ne_eq, ← hfollows.awaitsParameter_iff]
  constructor
  · rintro ⟨j, text, -, hhere⟩ awaits
    exact not_takesUp_of_awaitsParameter hfirst hlast awaits hb hclosed j hhere
  · intro idle
    exact exists_name_takesUp hfirst hlast (by simpa using idle) hb hword hclosed

/-- In `\xy2.(z)` the parameter stands apart from the name behind it, whose letter and digit stand
together. -/
theorem parameter_apart_from_name :
    let chars := ['\\', 'x', 'y', '2', '.', '(', 'z', ')']
    let tokens :=
      [.lambda, .name "x", .name "y2", .opening, .opening, .name "z", .closing, .closing]
    tokenize chars = .ok tokens ∧
      Token.concatenated tokens = condensed chars ++ [')'] ∧
      (chars[4]? = some '.' ∧ ∃! j, Token.TakesUp chars tokens 4 j) ∧
      (FollowsWordChar chars 2 ∧ ¬ ∃ j text, tokens[j]? = some (.name text) ∧
        Token.TakesUp chars tokens 1 j ∧ Token.TakesUp chars tokens 2 j) ∧
      FollowsWordChar chars 3 ∧ ∃ j text, tokens[j]? = some (.name text) ∧
        Token.TakesUp chars tokens 2 j ∧ Token.TakesUp chars tokens 3 j := by
  intro chars tokens
  have haccepted : tokenize chars = .ok tokens := rfl
  obtain ⟨htexts, hunique, hnames⟩ := texts_account_for_line haccepted
  have hparameter : FollowsWordChar chars 2 := ⟨'x', rfl, rfl⟩
  have hname : FollowsWordChar chars 3 := ⟨'y', rfl, rfl⟩
  have happart := hnames 2 'y' rfl rfl hparameter
  have htogether := hnames 3 '2' rfl rfl hname
  exact ⟨haccepted, htexts, ⟨rfl, hunique 4 '.' rfl rfl⟩,
    ⟨hparameter, fun hsame => happart.mp hsame rfl⟩, hname, htogether.mpr (by decide)⟩

end LambdaSyntax
