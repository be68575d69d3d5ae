import LambdaSyntax.Proofs.WellFormed

/-!
The printed form of tokens reads back.

The printed form of a token sequence has underscores where a line has spaces. `respaced` takes them
out again, so that printed tokens become a line; a backslash must have its parameter directly behind
it, and loses its underscore altogether. Well-formed tokens are those of the line that their printed
form describes. It is scanned token by token: what a token's text yields behind a space does not
depend on what was scanned before (`Scan.Yields.space`).

* `Scan.yields_respaced`: the printed form of well-spelled tokens, respaced, reads back as they are.
* `tokenize_exactly_wellFormed`: the token sequences of lines are exactly the well-formed ones.
-/

namespace LambdaSyntax

/-! ### Printed tokens as a line -/

/-- A printed token sequence as a line: an underscore behind a backslash is dropped, any other
becomes a space. -/
def respaced : List Char → List Char
  | '\\' :: '_' :: rest => '\\' :: respaced rest
  | c :: rest => (if c = '_' then ' ' else c) :: respaced rest
  | [] => []

theorem respaced_underscore (rest : List Char) : respaced ('_' :: rest) = ' ' :: respaced rest := by
  simp [respaced]

/-- A text without backslashes and underscores stays as it is. -/
theorem respaced_append {text rest : List Char} (h : ∀ c ∈ text, c ≠ '\\' ∧ c ≠ '_') :
    respaced (text ++ rest) = text ++ respaced rest := by
  induction text with
  | nil => rfl
  | cons c text ih =>
      obtain ⟨hbackslash, hunderscore⟩ := h c List.mem_cons_self
      rw [List.cons_append, respaced, if_neg hunderscore, List.cons_append,
        ih fun d hd => h d (List.mem_cons_of_mem c hd)]
      rintro rest' rfl
      exact absurd rfl hbackslash

/-- An identifier has neither backslashes nor underscores. -/
theorem plain_of_isIdentifier {text : String} (h : isIdentifier text = true) :
    ∀ c ∈ text.toList, c ≠ '\\' ∧ c ≠ '_' := by
  intro c hc
  have hword := isAlphanum_of_isIdentifier h c hc
  refine ⟨(Text.ne_sign_of_isAlphanum hword).1, ?_⟩
  rintro rfl
  cases hword

namespace Token

/-- The printed form of the tokens behind another one, with the underscore before them. -/
def printedBehind (tokens : List Token) : List Char :=
  if tokens = [] then [] else '_' :: (joined tokens).toList

theorem joined_cons (token : Token) (rest : List Token) :
    (joined (token :: rest)).toList = token.text.toList ++ printedBehind rest := by
  cases rest with
  | nil => simp [joined, printedBehind]
  | cons next rest =>
      simp [joined, printedBehind]

end Token

/-! ### Scanning token by token -/

namespace Scan

/-- What stands behind a space is scanned as if it stood alone. -/
theorem Yields.space {scan : Scan} {first second : List Char} {before behind : List Token}
    (h : scan.Yields first before)
    (hbehind : ∀ fresh : Scan, fresh.pending = .nothing → fresh.Yields second behind) :
    scan.Yields (first ++ ' ' :: second) (before ++ behind) := by
  obtain ⟨last, hrun, hlast, htokens⟩ := h
  have hreads : Pending.Reads last.position last.pending ' ' last.pending.flush .nothing :=
    .blank hlast rfl
  obtain ⟨final, hsecond, hfinal, hall⟩ := hbehind (last.after last.pending.flush .nothing) rfl
  refine ⟨final, ?_, hfinal, ?_⟩
  · rw [run_append, hrun]
    exact run_cons_eq_ok_iff.mpr ⟨_, _, hreads, hsecond⟩
  · have hspace : (last.after last.pending.flush .nothing).tokens = last.tokens := by
      simp [Scan.tokens, after, Pending.flush]
    rw [hall, hspace, htokens, List.append_assoc]

section Fresh

variable {scan : Scan}

/-- A name goes on through all letters and digits behind it. -/
theorem run_of_name {reversed text : List Char} (hp : scan.pending = .name reversed)
    (htext : ∀ c ∈ text, c.isAlphanum = true) :
    ∃ last, scan.run text = .ok last ∧ last.pending = .name (text.reverse ++ reversed) ∧
      last.emitted = scan.emitted := by
  induction text generalizing scan reversed with
  | nil => exact ⟨scan, rfl, by simpa using hp, rfl⟩
  | cons c text ih =>
      have hreads : Pending.Reads scan.position scan.pending c [] (.name (c :: reversed)) := by
        rw [hp]
        exact .continues (htext c List.mem_cons_self)
      have hnext : (scan.after [] (.name (c :: reversed))).pending = .name (c :: reversed) := rfl
      obtain ⟨last, hrun, hlast, hemitted⟩ :=
        ih hnext fun d hd => htext d (List.mem_cons_of_mem c hd)
      refine ⟨last, run_cons_eq_ok_iff.mpr ⟨_, _, hreads, hrun⟩, ?_, hemitted⟩
      simp [hlast]

variable (hp : scan.pending = .nothing)
include hp

theorem yields_name {text : String} (h : isIdentifier text = true) :
    scan.Yields text.toList [.name text] := by
  rw [← String.ofList_toList (s := text), isIdentifier_iff] at h
  obtain ⟨first, rest, htext, hfirst, hrest⟩ := h
  have hreads : Pending.Reads scan.position scan.pending first [] (.name [first]) :=
    .letter (by simp [hp, Pending.awaitsParameter]) (by simp [hp, Pending.inName]) hfirst
  have hnext : (scan.after [] (.name [first])).pending = .name [first] := rfl
  obtain ⟨last, hrun, hlast, hemitted⟩ := run_of_name hnext hrest
  refine ⟨last, ?_, by simp [hlast, Pending.awaitsParameter], ?_⟩
  · rw [htext]
    exact run_cons_eq_ok_iff.mpr ⟨_, _, hreads, hrun⟩
  · have hname : String.ofList (first :: rest) = text := by
      rw [← htext, String.ofList_toList]
    simp [Scan.tokens, hlast, hemitted, after, hp, Pending.flush, hname]

theorem yields_parameter {text : String} (h : isIdentifier text = true)
    (hlength : text.length = 1) :
    scan.Yields ('\\' :: text.toList) [.lambda, .name text] := by
  rw [← String.ofList_toList (s := text), isIdentifier_iff] at h
  obtain ⟨letter, rest, htext, hletter, -⟩ := h
  obtain rfl : rest = [] := by
    rw [← String.length_toList, htext] at hlength
    simpa using hlength
  have hname : String.singleton letter = text := by
    rw [String.singleton_eq_ofList, ← htext, String.ofList_toList]
  have hbackslash : Pending.Reads scan.position scan.pending '\\' scan.pending.flush
      (.lambda scan.position) := .backslash (by simp [hp, Pending.awaitsParameter])
  have hbound : (scan.after scan.pending.flush (.lambda scan.position)).Yields [letter]
      [.lambda, .name text] := by
    refine .cons (.parameter hletter) (yields_nil rfl) ?_
    simp [Scan.tokens, after, Pending.flush, hname]
  rw [htext]
  refine .cons hbackslash hbound ?_
  simp [Scan.tokens, after, hp, Pending.flush]

theorem yields_opening : scan.Yields ['('] [.opening] := by
  have hreads : Pending.Reads scan.position scan.pending '(' (scan.pending.flush ++ [.opening])
      (.bracket scan.position) := .opening (by simp [hp, Pending.awaitsParameter])
  refine .cons hreads (yields_nil rfl) ?_
  simp [Scan.tokens, after, hp, Pending.flush]

theorem yields_closing : scan.Yields [')'] [.closing] := by
  have hreads : Pending.Reads scan.position scan.pending ')' (scan.pending.flush ++ [.closing])
      .nothing :=
    .closing (by simp [hp, Pending.awaitsParameter]) (by simp [hp, Pending.atBracket])
  refine .cons hreads (yields_nil rfl) ?_
  simp [Scan.tokens, after, hp, Pending.flush]

end Fresh

/-- What is printed behind a token is scanned as if it stood alone. -/
theorem Yields.printedBehind {scan : Scan} {text : List Char} {before behind : List Token}
    (h : scan.Yields text before)
    (hbehind : ∀ fresh : Scan, fresh.pending = .nothing →
      fresh.Yields (respaced (Token.joined behind).toList) behind) :
    scan.Yields (text ++ respaced (Token.printedBehind behind)) (before ++ behind) := by
  unfold Token.printedBehind
  by_cases hnil : behind = []
  · subst hnil
    simpa [respaced] using h
  · rw [if_neg hnil, respaced_underscore]
    exact h.space hbehind

/-- **The printed form of well-spelled tokens, respaced, reads back as they are.** -/
theorem yields_respaced {tokens : List Token} (h : Token.Spelled tokens) {scan : Scan}
    (hp : scan.pending = .nothing) :
    scan.Yields (respaced (Token.joined tokens).toList) tokens := by
  induction h using Token.Spelled.induction generalizing scan with
  | nil => exact yields_nil (by simp [hp, Pending.awaitsParameter])
  | abstraction text rest _ hname hlength ih =>
      have hlambda : (Token.joined (.lambda :: .name text :: rest)).toList =
          '\\' :: '_' :: (Token.joined (.name text :: rest)).toList := by
        rw [Token.joined_cons]
        rfl
      rw [hlambda, respaced, Token.joined_cons, Token.text,
        respaced_append (plain_of_isIdentifier hname)]
      exact (yields_parameter hp hname hlength).printedBehind fun _ => ih
  | name text rest _ hname ih =>
      rw [Token.joined_cons, Token.text, respaced_append (plain_of_isIdentifier hname)]
      exact (yields_name hp hname).printedBehind fun _ => ih
  | opening rest _ ih =>
      rw [Token.joined_cons, respaced_append (by simp [Token.text])]
      exact (yields_opening hp).printedBehind fun _ => ih
  | closing rest _ ih =>
      rw [Token.joined_cons, respaced_append (by simp [Token.text])]
      exact (yields_closing hp).printedBehind fun _ => ih

end Scan

/-! ### Exactly the well-formed sequences -/

theorem dot_not_mem_respaced {text : List Char} (h : '.' ∉ text) : '.' ∉ respaced text := by
  induction text using respaced.induct with
  | case1 rest ih =>
      simp only [List.mem_cons, not_or] at h
      simp only [respaced, List.mem_cons, not_or]
      exact ⟨h.1, ih h.2.2⟩
  | case2 c rest hc ih =>
      simp only [List.mem_cons, not_or] at h
      have hc_dot : '.' ≠ if c = '_' then ' ' else c := by
        split
        · decide
        · exact h.1
      rw [respaced]
      · simp only [List.mem_cons, not_or]
        exact ⟨hc_dot, ih h.2⟩
      · exact hc
  | case3 => exact h

theorem dot_not_mem_printedBehind {tokens : List Token}
    (h : '.' ∉ (Token.joined tokens).toList) : '.' ∉ Token.printedBehind tokens := by
  unfold Token.printedBehind
  split
  · simp
  · simpa using h

/-- No token is printed with a dot. -/
theorem dot_not_mem_joined {tokens : List Token} (h : Token.Spelled tokens) :
    '.' ∉ (Token.joined tokens).toList := by
  have hname : ∀ text, isIdentifier text = true → '.' ∉ text.toList := by
    intro text h hmem
    exact (Text.ne_sign_of_isAlphanum (isAlphanum_of_isIdentifier h '.' hmem)).2.1 rfl
  induction h using Token.Spelled.induction with
  | nil => exact List.not_mem_nil
  | abstraction text rest _ htext _ ih =>
      have hbound : '.' ∉ (Token.joined (.name text :: rest)).toList := by
        simp [Token.joined_cons, Token.text, hname text htext, dot_not_mem_printedBehind ih]
      rw [Token.joined_cons]
      simp [Token.text, dot_not_mem_printedBehind hbound]
  | name text rest _ htext ih =>
      simp [Token.joined_cons, Token.text, hname text htext, dot_not_mem_printedBehind ih]
  | opening rest _ ih =>
      simp [Token.joined_cons, Token.text, dot_not_mem_printedBehind ih]
  | closing rest _ ih =>
      simp [Token.joined_cons, Token.text, dot_not_mem_printedBehind ih]

/-- The line that the printed form of well-formed tokens describes has them as its tokens. -/
theorem tokenize_respaced {tokens : List Token} (h : Token.WellFormed tokens) :
    tokenize (respaced (Token.joined tokens).toList) = .ok tokens := by
  have hfresh : Scan.start.pending = .nothing := rfl
  obtain ⟨last, hrun, hlast, htokens⟩ := Scan.yields_respaced h.toSpelled hfresh
  have hall : last.tokens = tokens := htokens
  have hnests : Nests Token.opening Token.closing last.tokens := hall ▸ h.nests
  have hdots := dot_not_mem_respaced (dot_not_mem_joined h.toSpelled)
  refine tokenize_eq_ok_iff.mpr ⟨?_, last, hrun, hlast, ?_⟩
  · exact Brackets.check_eq_ok_iff.mpr (Scan.nests_line hrun hdots hnests)
  · rw [hall, Token.closeGroups_of_nests h.nests]

/-- **The token sequences of lines are exactly the well-formed ones, and the printed form reads
back.** Whatever line is accepted, its tokens are well formed; and well-formed tokens are those of
the line that their printed form describes. -/
theorem tokenize_exactly_wellFormed :
    (∀ line tokens, tokenize line = .ok tokens → Token.WellFormed tokens) ∧
      ∀ tokens, Token.WellFormed tokens →
        tokenize (respaced (Token.joined tokens).toList) = .ok tokens :=
  ⟨fun _ _ h => Token.wellFormed_of_tokenize h, fun _ h => tokenize_respaced h⟩

/-- A dot is printed as the bracket it stands for, and its group is closed where the line ends. -/
theorem dotted_line_reads_back :
    tokenize ['\\', 'x', '.', 'y', '1'] =
        .ok [.lambda, .name "x", .opening, .name "y1", .closing] ∧
      Token.WellFormed [.lambda, .name "x", .opening, .name "y1", .closing] ∧
      tokenize
          (respaced (Token.joined [.lambda, .name "x", .opening, .name "y1", .closing]).toList) =
        .ok [.lambda, .name "x", .opening, .name "y1", .closing] := by
  have haccepted : tokenize ['\\', 'x', '.', 'y', '1'] =
      .ok [.lambda, .name "x", .opening, .name "y1", .closing] := rfl
  have hwellFormed := tokenize_exactly_wellFormed.1 _ _ haccepted
  exact ⟨haccepted, hwellFormed, tokenize_exactly_wellFormed.2 _ hwellFormed⟩

end LambdaSyntax
