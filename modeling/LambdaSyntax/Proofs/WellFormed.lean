import LambdaSyntax.Proofs.Groups

/-!
Well-formed token sequences.

`Token.WellFormed` says what a token sequence of the notation is, without mention of lines: its
groups nest, its names are identifiers, and every lambda has its parameter. Lines give nothing else.
Every reading keeps the tokens well spelled, and the groups are those of `Scan.MirrorsGroups`.

* `Token.Spelled.induction`: well-spelled sequences, taken apart from the front.
* `Token.spelled_of_run`: the names and lambdas of a scan are spelled as the notation has them.
* `Token.wellFormed_of_tokenize`: the tokens of an accepted line are well formed.
-/

namespace LambdaSyntax

theorem isIdentifier_iff {text : List Char} :
    isIdentifier (String.ofList text) = true ↔
      ∃ first rest, text = first :: rest ∧ first.isAlpha = true ∧
        ∀ c ∈ rest, c.isAlphanum = true := by
  cases text with
  | nil => simp [isIdentifier]
  | cons first rest => simp [isIdentifier]

theorem isAlphanum_of_isIdentifier {text : String} (h : isIdentifier text = true) :
    ∀ c ∈ text.toList, c.isAlphanum = true := by
  rw [← String.ofList_toList (s := text), isIdentifier_iff] at h
  obtain ⟨first, rest, htext, hfirst, hrest⟩ := h
  intro c hc
  rw [htext] at hc
  rcases List.mem_cons.mp hc with rfl | hc
  · exact Text.isAlphanum_of_isAlpha hfirst
  · exact hrest c hc

namespace Token

/-- Names and lambdas as the notation has them. -/
structure Spelled (tokens : List Token) : Prop where
  /-- Every name is an identifier. -/
  names : ∀ text, Token.name text ∈ tokens → isIdentifier text = true
  /-- Every lambda stands directly before its parameter, a name of one letter. -/
  parameters : ∀ i, tokens[i]? = some .lambda →
    ∃ text, tokens[i + 1]? = some (.name text) ∧ text.length = 1

/-- The token sequences of the notation. -/
structure WellFormed (tokens : List Token) : Prop extends Spelled tokens where
  /-- Every group that is opened is closed, and none besides. -/
  nests : Nests Token.opening Token.closing tokens

/-! ### Spelling -/

theorem Spelled.nil : Spelled [] := ⟨by simp, by simp⟩

theorem Spelled.append {first second : List Token} (hfirst : Spelled first)
    (hsecond : Spelled second) : Spelled (first ++ second) where
  names := by
    intro text hmem
    rcases List.mem_append.mp hmem with h | h
    · exact hfirst.names text h
    · exact hsecond.names text h
  parameters := by
    intro i hi
    by_cases hlt : i < first.length
    · rw [List.getElem?_append_left hlt] at hi
      obtain ⟨text, htext, hlength⟩ := hfirst.parameters i hi
      have hnext : i + 1 < first.length := (List.getElem?_eq_some_iff.mp htext).1
      exact ⟨text, by rw [List.getElem?_append_left hnext, htext], hlength⟩
    · have hle : first.length ≤ i := by omega
      rw [List.getElem?_append_right hle] at hi
      obtain ⟨text, htext, hlength⟩ := hsecond.parameters _ hi
      refine ⟨text, ?_, hlength⟩
      rw [List.getElem?_append_right (by omega), ← htext]
      congr 1
      omega

theorem Spelled.tail {token : Token} {rest : List Token} (h : Spelled (token :: rest)) :
    Spelled rest where
  names := fun text hmem => h.names text (List.mem_cons_of_mem token hmem)
  parameters := fun i hi => h.parameters (i + 1) hi

/-- Signs that open or close groups have no spelling to get wrong. -/
theorem spelled_of_groups {tokens : List Token}
    (h : ∀ token ∈ tokens, token = .opening ∨ token = .closing) : Spelled tokens where
  names := by
    intro text hmem
    rcases h _ hmem with h | h <;> cases h
  parameters := by
    intro i hi
    rcases h _ (List.mem_of_getElem? hi) with h | h <;> cases h

theorem spelled_name {text : String} (h : isIdentifier text = true) : Spelled [.name text] where
  names := by
    intro other hmem
    simp only [List.mem_singleton, Token.name.injEq] at hmem
    rw [hmem]
    exact h
  parameters := by
    intro i hi
    have hmem := List.mem_of_getElem? hi
    simp at hmem

theorem spelled_parameter {c : Char} (h : c.isAlpha = true) :
    Spelled [.lambda, .name (String.singleton c)] where
  names := by
    intro text hmem
    simp only [List.mem_cons, reduceCtorEq, Token.name.injEq, List.not_mem_nil, or_false,
      false_or] at hmem
    rw [hmem, String.singleton_eq_ofList]
    exact isIdentifier_iff.mpr ⟨c, [], rfl, h, by simp⟩
  parameters := by
    intro i hi
    match i, hi with
    | 0, _ => exact ⟨String.singleton c, rfl, by simp⟩
    | 1, hi => simp at hi

/-- **Spelled sequences, from their first tokens on.** A lambda comes with its parameter, and any
other token on its own. -/
theorem Spelled.induction {motive : (tokens : List Token) → Spelled tokens → Prop}
    (nil : motive [] .nil)
    (abstraction : ∀ text rest (h : Spelled (.lambda :: .name text :: rest)),
      isIdentifier text = true → text.length = 1 → motive rest h.tail.tail → motive _ h)
    (name : ∀ text rest (h : Spelled (.name text :: rest)), isIdentifier text = true →
      motive rest h.tail → motive _ h)
    (opening : ∀ rest (h : Spelled (.opening :: rest)), motive rest h.tail → motive _ h)
    (closing : ∀ rest (h : Spelled (.closing :: rest)), motive rest h.tail → motive _ h) :
    ∀ {tokens : List Token} (h : Spelled tokens), motive tokens h
  | [], _ => nil
  | .name text :: rest, h =>
      name text rest h (h.names text (by simp))
        (Spelled.induction nil abstraction name opening closing h.tail)
  | .opening :: rest, h =>
      opening rest h (Spelled.induction nil abstraction name opening closing h.tail)
  | .closing :: rest, h =>
      closing rest h (Spelled.induction nil abstraction name opening closing h.tail)
  | .lambda :: rest, h => by
      obtain ⟨text, htext, hlength⟩ := h.parameters 0 rfl
      cases rest with
      | nil => simp at htext
      | cons next rest =>
          obtain rfl : next = .name text := by simpa using htext
          exact abstraction text rest h (h.names text (by simp)) hlength
            (Spelled.induction nil abstraction name opening closing h.tail.tail)

end Token

/-! ### The tokens of a scan are spelled well -/

namespace Pending

/-- A pending name is an identifier already. -/
def Named (p : Pending) : Prop :=
  ∀ reversed, p = .name reversed → isIdentifier (String.ofList reversed.reverse) = true

theorem Named.spelled_flush {p : Pending} (h : p.Named) : Token.Spelled p.flush := by
  cases p with
  | name reversed => exact Token.spelled_name (h reversed rfl)
  | nothing => exact .nil
  | lambda position => exact .nil
  | parameter => exact .nil
  | bracket position => exact .nil

/-- Reading keeps pending names identifiers, and completes only well-spelled tokens. -/
theorem Reads.spelled {position : Nat} {p next : Pending} {c : Char} {tokens : List Token}
    (h : Reads position p c tokens next) (hp : p.Named) :
    Token.Spelled tokens ∧ next.Named := by
  have hflush := hp.spelled_flush
  cases h with
  | parameter letter => exact ⟨Token.spelled_parameter letter, by rintro _ ⟨⟩⟩
  | continues word =>
      refine ⟨.nil, ?_⟩
      rintro _ ⟨⟩
      obtain ⟨first, rest, htext, hfirst, hrest⟩ := isIdentifier_iff.mp (hp _ rfl)
      refine isIdentifier_iff.mpr ⟨first, rest ++ [c], by simp [htext], hfirst, ?_⟩
      intro d hd
      rcases List.mem_append.mp hd with hd | hd
      · exact hrest d hd
      · rw [List.mem_singleton.mp hd]
        exact word
  | backslash idle => exact ⟨hflush, by rintro _ ⟨⟩⟩
  | blank idle blank => exact ⟨hflush, by rintro _ ⟨⟩⟩
  | dot behind =>
      exact ⟨hflush.append (Token.spelled_of_groups (by simp)), by rintro _ ⟨⟩⟩
  | opening idle =>
      exact ⟨hflush.append (Token.spelled_of_groups (by simp)), by rintro _ ⟨⟩⟩
  | closing idle apart =>
      exact ⟨hflush.append (Token.spelled_of_groups (by simp)), by rintro _ ⟨⟩⟩
  | letter idle fresh letter =>
      refine ⟨.nil, ?_⟩
      rintro _ ⟨⟩
      exact isIdentifier_iff.mpr ⟨c, [], rfl, letter, by simp⟩

end Pending

namespace Token

theorem spelled_of_run {line : List Char} {scan : Scan} (h : Scan.start.run line = .ok scan) :
    Spelled scan.tokens := by
  have hstart : Spelled Scan.start.emitted.reverse ∧ Scan.start.pending.Named :=
    ⟨.nil, by rintro _ ⟨⟩⟩
  have hinvariant : Spelled scan.emitted.reverse ∧ scan.pending.Named := by
    refine Scan.run_invariant (P := fun _ scan => Spelled scan.emitted.reverse ∧ scan.pending.Named)
      hstart ?_ h
    rintro read scan c tokens next ⟨hemitted, hpending⟩ hreads
    obtain ⟨htokens, hnext⟩ := hreads.spelled hpending
    refine ⟨?_, hnext⟩
    rw [Scan.reverse_emitted_after]
    exact hemitted.append htokens
  exact hinvariant.1.append hinvariant.2.spelled_flush

theorem wellFormed_of_tokenize {line : List Char} {tokens : List Token}
    (h : tokenize line = .ok tokens) : WellFormed tokens := by
  obtain ⟨hcheck, scan, hrun, -, rfl⟩ := tokenize_eq_ok_iff.mp h
  refine ⟨(spelled_of_run hrun).append (spelled_of_groups ?_), Scan.nests_closeGroups hcheck hrun⟩
  intro token hmem
  exact .inr (List.eq_of_mem_replicate hmem)

end Token

end LambdaSyntax
