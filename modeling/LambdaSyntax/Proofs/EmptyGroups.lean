import LambdaSyntax.Proofs.Depths
import LambdaSyntax.Proofs.Spacing
import LambdaSyntax.Proofs.WellFormed

/-!
Groups without content.

The scanner rejects a bracket that is closed at once and no other empty group. It lets pass brackets
with white space between them, and a dot whose group the next closing bracket or the end of the line
ends before anything else comes (`HoldsEmptyGroup`). Such a group is an opening with a closing
directly behind it in the tokens, and every such pair comes from one. That is found in the texts: an
opening bracket is the text of an opening and of nothing else, so the pair stands in the tokens
where the two brackets stand in what the tokens say, which is the line without its white space and
with brackets for its dots.

In a tree the closing never gives a node. Nor does the opening, where it does not head a group: the
tree is then that of the tokens without the pair.

* `Token.Spelled.emptyGroup_infix_iff`: the pair in the tokens and the brackets in their texts.
* `pair_infix_condensed_iff`, `singleton_suffix_condensed_iff`: characters that are neighbours but
  for white space.
* `holdsEmptyGroup_iff`: the empty groups of a line in what its tokens say.
* `Builder.step_emptyGroup`: an empty group leaves the builder as it was.
* `empty_groups_of_line`: all of this for the tokens of an accepted line.
-/

namespace LambdaSyntax

/-- A group without content that is not rejected for it. -/
inductive HoldsEmptyGroup (line : List Char) : Prop where
  /-- Brackets with white space between them. -/
  | brackets {blanks : List Char} (apart : blanks ≠ [])
      (blank : ∀ c ∈ blanks, Text.isBlank c = true) (here : '(' :: (blanks ++ [')']) <:+: line)
  /-- A dot whose group a bracket ends. -/
  | dot {blanks : List Char} (blank : ∀ c ∈ blanks, Text.isBlank c = true)
      (here : '.' :: (blanks ++ [')']) <:+: line)
  /-- A dot whose group the end of the line ends. -/
  | lastDot {blanks : List Char} (blank : ∀ c ∈ blanks, Text.isBlank c = true)
      (here : '.' :: blanks <:+ line)

/-- What starts with an element that the first part lacks is found in the second part. -/
theorem cons_infix_append_iff {α : Type} {x : α} {xs first second : List α} (h : x ∉ first) :
    x :: xs <:+: first ++ second ↔ x :: xs <:+: second := by
  induction first with
  | nil => rfl
  | cons y first ih =>
      obtain ⟨hy, hfirst⟩ := List.ne_and_not_mem_of_not_mem_cons h
      rw [List.cons_append, List.infix_cons_iff, List.cons_prefix_cons, ih hfirst]
      exact or_iff_right fun hhead => hy hhead.1

/-! ### The texts of tokens -/

namespace Token

section Spelled

variable {token : Token} {tokens : List Token}

/-- An opening bracket is the text of an opening, and stands in no other text. -/
theorem Spelled.bracket_notMem_text (h : Spelled (token :: tokens)) (hopening : token ≠ .opening) :
    '(' ∉ token.text.toList := by
  cases token with
  | opening => exact absurd rfl hopening
  | closing => decide
  | lambda => decide
  | name text =>
      intro hmem
      have hword := isAlphanum_of_isIdentifier (h.names text List.mem_cons_self) '(' hmem
      cases hword

/-- A closing bracket is the text of a closing, and starts no other text. -/
theorem Spelled.closing_prefix_iff (h : Spelled tokens) :
    [.closing] <+: tokens ↔ [')'] <+: concatenated tokens := by
  cases tokens with
  | nil => simp [concatenated]
  | cons token rest =>
      rw [concatenated_cons, List.cons_prefix_cons]
      cases token with
      | closing => simp [text]
      | lambda => simp [text]
      | opening => simp [text]
      | name text =>
          have hname := h.names text List.mem_cons_self
          rw [← String.ofList_toList (s := text), isIdentifier_iff] at hname
          obtain ⟨first, behind, htext, hfirst, -⟩ := hname
          have hsign := (Text.ne_sign_of_isAlphanum (Text.isAlphanum_of_isAlpha hfirst)).2.2.2
          simp [Token.text, htext, hsign.symm]

/-- **An opening and a closing are neighbours where their texts are.** -/
theorem Spelled.emptyGroup_infix_iff (h : Spelled tokens) :
    [.opening, .closing] <:+: tokens ↔ ['(', ')'] <:+: concatenated tokens := by
  induction tokens with
  | nil => simp [concatenated]
  | cons token rest ih =>
      have hrest := ih h.tail
      rw [concatenated_cons]
      by_cases hopening : token = .opening
      · subst hopening
        have htext : Token.opening.text.toList = ['('] := rfl
        rw [htext, List.singleton_append, List.infix_cons_iff, List.infix_cons_iff,
          List.cons_prefix_cons, List.cons_prefix_cons, h.tail.closing_prefix_iff, hrest, eq_self,
          eq_self]
      · have htoken : .opening ∉ [token] := by simpa using Ne.symm hopening
        rw [cons_infix_append_iff (h.bracket_notMem_text hopening), ← hrest]
        exact cons_infix_append_iff htoken

end Spelled

end Token

/-! ### Neighbours in a line, white space apart -/

theorem bracketed_eq_opening_iff {c : Char} : bracketed c = '(' ↔ c = '(' ∨ c = '.' := by
  unfold bracketed
  split <;> simp_all

theorem bracketed_eq_closing_iff {c : Char} : bracketed c = ')' ↔ c = ')' := by
  unfold bracketed
  split <;> simp_all

section Condensed

variable {line part xs : List Char} {b c : Char}

theorem condensed_eq_nil_iff : condensed part = [] ↔ ∀ a ∈ part, Text.isBlank a = true := by
  simp [condensed, List.filter_eq_nil_iff]

/-- The first character that is left, with the white space before it and what stands behind it. -/
theorem condensed_eq_cons_iff :
    condensed part = b :: xs ↔
      ∃ blanks first behind, part = blanks ++ first :: behind ∧
        (∀ a ∈ blanks, Text.isBlank a = true) ∧ Text.isBlank first = false ∧
        bracketed first = b ∧ condensed behind = xs := by
  constructor
  · intro h
    obtain ⟨first, kept, hkept, rfl, rfl⟩ := List.map_eq_cons_iff.mp h
    obtain ⟨blanks, behind, rfl, hblanks, hfirst, rfl⟩ := List.filter_eq_cons_iff.mp hkept
    exact ⟨blanks, first, behind, rfl, by simpa using hblanks, by simpa using hfirst, rfl, rfl⟩
  · rintro ⟨blanks, first, behind, rfl, hblanks, hfirst, rfl, rfl⟩
    rw [← List.singleton_append, condensed_append, condensed_append,
      condensed_eq_nil_iff.mpr hblanks, condensed_of_not_isBlank hfirst]
    rfl

theorem infix_condensed_iff :
    xs <:+: condensed line ↔ ∃ part, part <:+: line ∧ condensed part = xs := by
  constructor
  · intro h
    obtain ⟨kept, hkept, rfl⟩ := List.infix_map_iff.mp h
    obtain ⟨part, hpart, rfl⟩ := List.infix_filter_iff.mp hkept
    exact ⟨part, hpart, rfl⟩
  · rintro ⟨part, hpart, rfl⟩
    exact (hpart.filter _).map bracketed

theorem suffix_condensed_iff :
    xs <:+ condensed line ↔ ∃ part, part <:+ line ∧ condensed part = xs := by
  constructor
  · intro h
    obtain ⟨kept, hkept, rfl⟩ := List.suffix_map_iff.mp h
    obtain ⟨part, hpart, rfl⟩ := List.suffix_filter_iff.mp hkept
    exact ⟨part, hpart, rfl⟩
  · rintro ⟨part, hpart, rfl⟩
    exact (hpart.filter _).map bracketed

/-- **The last character**, white space apart. -/
theorem singleton_suffix_condensed_iff :
    [b] <:+ condensed line ↔
      ∃ last blanks, Text.isBlank last = false ∧ bracketed last = b ∧
        (∀ a ∈ blanks, Text.isBlank a = true) ∧ last :: blanks <:+ line := by
  constructor
  · intro h
    obtain ⟨part, hpart, hb⟩ := suffix_condensed_iff.mp h
    obtain ⟨before, last, blanks, rfl, -, hlast, hbracketed, hnil⟩ := condensed_eq_cons_iff.mp hb
    exact ⟨last, blanks, hlast, hbracketed, condensed_eq_nil_iff.mp hnil,
      (List.suffix_append before _).trans hpart⟩
  · rintro ⟨last, blanks, hlast, hbracketed, hblanks, hpart⟩
    have hcondensed : condensed (last :: blanks) = [b] :=
      condensed_eq_cons_iff.mpr ⟨[], last, blanks, rfl, List.forall_mem_nil _, hlast, hbracketed,
        condensed_eq_nil_iff.mpr hblanks⟩
    exact suffix_condensed_iff.mpr ⟨_, hpart, hcondensed⟩

/-- **Two neighbours**, white space apart. -/
theorem pair_infix_condensed_iff :
    [b, c] <:+: condensed line ↔
      ∃ first blanks second, (Text.isBlank first = false ∧ bracketed first = b) ∧
        (∀ a ∈ blanks, Text.isBlank a = true) ∧
        (Text.isBlank second = false ∧ bracketed second = c) ∧
        first :: (blanks ++ [second]) <:+: line := by
  constructor
  · intro h
    obtain ⟨part, hpart, hpair⟩ := infix_condensed_iff.mp h
    obtain ⟨before, first, rest, rfl, -, hfirst, hb, hsingle⟩ := condensed_eq_cons_iff.mp hpair
    obtain ⟨blanks, second, after, rfl, hblanks, hsecond, hc, -⟩ :=
      condensed_eq_cons_iff.mp hsingle
    refine ⟨first, blanks, second, ⟨hfirst, hb⟩, hblanks, ⟨hsecond, hc⟩, ?_⟩
    exact List.IsInfix.trans ⟨before, after, by simp⟩ hpart
  · rintro ⟨first, blanks, second, ⟨hfirst, hb⟩, hblanks, ⟨hsecond, hc⟩, hpart⟩
    have hsingle : condensed (blanks ++ [second]) = [c] :=
      condensed_eq_cons_iff.mpr ⟨blanks, second, [], rfl, hblanks, hsecond, hc, rfl⟩
    have hpair : condensed (first :: (blanks ++ [second])) = [b, c] :=
      condensed_eq_cons_iff.mpr ⟨[], first, _, rfl, List.forall_mem_nil _, hfirst, hb, hsingle⟩
    exact infix_condensed_iff.mpr ⟨_, hpart, hpair⟩

end Condensed

/-! ### The empty groups of a line -/

/-- An opening bracket that is read is pending then. -/
theorem Pending.Reads.atBracket_of_opening {position : Nat} {p next : Pending} {tokens : List Token}
    (h : Reads position p '(' tokens next) : next.atBracket = true := by
  cases h with
  | opening idle => rfl
  | parameter letter => cases letter
  | continues word => cases word
  | blank idle blank => cases blank
  | letter idle fresh letter => cases letter

/-- No bracket of a line without a fault is closed at once. -/
theorem Scan.not_brackets_infix_of_run {line : List Char} {scan last : Scan}
    (h : scan.run line = .ok last) : ¬ ['(', ')'] <:+: line := by
  rintro ⟨before, after, rfl⟩
  rw [List.append_assoc] at h
  obtain ⟨middle, -, hbrackets⟩ := run_append_eq_ok_iff.mp h
  obtain ⟨_, next, hopening, hrest⟩ := run_cons_eq_ok_iff.mp hbrackets
  obtain ⟨_, _, hclosing, -⟩ := run_cons_eq_ok_iff.mp hrest
  exact hclosing.ne_closing hopening.atBracket_of_opening rfl

/-- The second of two neighbours may be the first of the closings that are added at the end. -/
theorem pair_infix_append_replicate_iff {xs : List Char} {n : Nat} :
    ['(', ')'] <:+: xs ++ List.replicate n ')' ↔
      ['(', ')'] <:+: xs ∨ (['('] <:+ xs ∧ 0 < n) := by
  rw [List.infix_append_iff_ne_nil]
  constructor
  · rintro (hinside | hadded | ⟨first, second, hfirst, hsecond, hpair, hend, hadded⟩)
    · exact .inl hinside
    · have hmem : '(' ∈ List.replicate n ')' := hadded.subset List.mem_cons_self
      cases List.eq_of_mem_replicate hmem
    · -- Neither side is empty, so each has one of the two.
      obtain ⟨b, first, rfl⟩ := List.exists_cons_of_ne_nil hfirst
      obtain ⟨rfl, hrest⟩ := List.cons.inj hpair
      rcases List.singleton_eq_append_iff.mp hrest with ⟨rfl, rfl⟩ | ⟨-, rfl⟩
      · have hmem : ')' ∈ List.replicate n ')' := hadded.subset List.mem_cons_self
        exact .inr ⟨hend, Nat.pos_of_ne_zero (List.mem_replicate.mp hmem).1⟩
      · exact absurd rfl hsecond
  · rintro (hinside | ⟨hend, hn⟩)
    · exact .inl hinside
    · obtain ⟨m, rfl⟩ := Nat.exists_eq_add_one_of_ne_zero (Nat.ne_of_gt hn)
      exact .inr (.inr ⟨['('], [')'], List.cons_ne_nil _ _, List.cons_ne_nil _ _, rfl, hend,
        ⟨List.replicate m ')', rfl⟩⟩)

section HoldsEmptyGroup

variable {line : List Char}

/-- **The empty groups of a line show in what its tokens say**, if no bracket is closed at once and
none stays open. -/
theorem holdsEmptyGroup_iff (hbrackets : ¬ ['(', ')'] <:+: line) (hnests : Nests '(' ')' line) :
    HoldsEmptyGroup line ↔
      ['(', ')'] <:+: condensed line ++ List.replicate (line.count '.') ')' := by
  rw [pair_infix_append_replicate_iff, pair_infix_condensed_iff, singleton_suffix_condensed_iff]
  constructor
  · rintro (⟨apart, hblank, here⟩ | ⟨hblank, here⟩ | ⟨hblank, here⟩)
    · exact .inl ⟨'(', _, ')', ⟨rfl, rfl⟩, hblank, ⟨rfl, rfl⟩, here⟩
    · exact .inl ⟨'.', _, ')', ⟨rfl, rfl⟩, hblank, ⟨rfl, rfl⟩, here⟩
    · have hdot : '.' ∈ line := here.subset List.mem_cons_self
      exact .inr ⟨⟨'.', _, rfl, rfl, hblank, here⟩, List.count_pos_iff.mpr hdot⟩
  · rintro (⟨first, blanks, second, ⟨-, hfirst⟩, hblank, ⟨-, hsecond⟩, here⟩ |
      ⟨⟨last, blanks, -, hlast, hblank, here⟩, -⟩)
    · obtain rfl := bracketed_eq_closing_iff.mp hsecond
      rcases bracketed_eq_opening_iff.mp hfirst with rfl | rfl
      · refine .brackets ?_ hblank here
        rintro rfl
        exact hbrackets here
      · exact .dot hblank here
    · rcases bracketed_eq_opening_iff.mp hlast with rfl | rfl
      · -- No closing bracket is left for this one.
        obtain ⟨before, rfl⟩ := here
        have hinner : Nests '(' ')' blanks :=
          Brackets.check_eq_ok_iff.mp (Brackets.check_append_blanks hblank [])
        exact absurd hnests (not_nests_append_opening Brackets.opening_ne_closing hinner)
      · exact .lastDot hblank here

/-- The empty groups of an accepted line are those of its tokens. -/
theorem emptyGroup_infix_tokens_iff {tokens : List Token} (h : tokenize line = .ok tokens) :
    [.opening, .closing] <:+: tokens ↔ HoldsEmptyGroup line := by
  have hspelled : Token.Spelled tokens := (Token.wellFormed_of_tokenize h).toSpelled
  obtain ⟨hcheck, last, hrun, hidle, rfl⟩ := tokenize_eq_ok_iff.mp h
  rw [hspelled.emptyGroup_infix_iff, Token.concatenated_closeGroups,
    Scan.concatenated_tokens hrun hidle, Scan.unclosed_tokens hcheck hrun]
  exact (holdsEmptyGroup_iff (Scan.not_brackets_infix_of_run hrun)
    (Brackets.check_eq_ok_iff.mp hcheck)).symm

end HoldsEmptyGroup

/-! ### Empty groups in a tree -/

namespace Builder

/-- A closing gives no node, wherever it stands. -/
theorem makesNode_closing (builder : Builder) : builder.makesNode .closing = false := by
  obtain ⟨arena, openNodes, awaitingHead⟩ := builder
  cases openNodes with
  | nil => rfl
  | cons parent outer => cases awaitingHead <;> rfl

section EmptyGroup

variable {builder : Builder}

/-- **An empty group leaves the builder as it was**, unless its opening is the head of a group. -/
theorem step_emptyGroup (h : builder.makesNode .opening = false) :
    (builder.step .opening).step .closing = builder := by
  obtain ⟨arena, openNodes, awaitingHead⟩ := builder
  cases openNodes with
  | nil => rfl
  | cons parent outer =>
      cases awaitingHead with
      | true => cases h
      | false => rfl

/-- An opening that is the head of a group and is closed at once gives a node whose group is not
open. -/
theorem settled_emptyGroup (h : builder.makesNode .opening = true)
    (hopen : ∀ index ∈ builder.openNodes, index < builder.arena.size) :
    ((builder.step .opening).step .closing).Settled builder.arena.size ⟨.opening, #[]⟩ := by
  obtain ⟨arena, openNodes, awaitingHead⟩ := builder
  cases openNodes with
  | nil => cases h
  | cons parent outer =>
      cases awaitingHead with
      | false => cases h
      | true =>
          have hnode : (arena.attach parent .opening).node? arena.size = some ⟨.opening, #[]⟩ :=
            Arena.node?_attach_size (hopen parent List.mem_cons_self)
          exact ⟨hnode, fun hmem => Nat.lt_irrefl _ (hopen _ hmem)⟩

end EmptyGroup

variable {first : Token} {before after : List Token} {index : Nat}

/-- A token behind some others makes a node where the builder does. -/
theorem makes_length_iff {token : Token} {more : List Token} :
    Token.Makes first (before ++ token :: more) before.length index ↔
      (run first before).makesNode token = true ∧ (run first before).arena.size = index := by
  rw [makes_iff, List.take_left]
  simp

theorem not_makes_closing {rest : List Token} {position : Nat}
    (h : rest[position]? = some .closing) : ¬ Token.Makes first rest position index := by
  intro hmakes
  obtain ⟨token, htoken, hnode, -⟩ := makes_iff.mp hmakes
  obtain rfl := Option.some.inj (h.symm.trans htoken)
  rw [makesNode_closing] at hnode
  cases hnode

theorem run_emptyGroup (h : (run first before).makesNode .opening = false) :
    run first (before ++ .opening :: .closing :: after) = run first (before ++ after) := by
  rw [run_append, run_append, List.foldl_cons, List.foldl_cons, step_emptyGroup h]

theorem node?_run_emptyGroup (h : (run first before).makesNode .opening = true) :
    (run first (before ++ .opening :: .closing :: after)).arena.node?
      (run first before).arena.size = some ⟨.opening, #[]⟩ := by
  have hsettled := settled_emptyGroup h (openNodes_lt_size first before)
  rw [run_append]
  exact (hsettled.foldl_step after).node?_eq

end Builder

/-- **The empty groups that are not rejected.** Among the tokens of an accepted line is an opening
with a closing directly behind it exactly if the line holds brackets with white space between them,
or a dot with nothing but white space before a closing bracket or the end of the line. Behind the
first token, such a closing makes no node. If the opening makes none either, the tree is that of the
tokens without the two; and if it does, being the head of a group, its node has no children. -/
theorem empty_groups_of_line {line : List Char} {tokens : List Token}
    (h : tokenize line = .ok tokens) :
    ([.opening, .closing] <:+: tokens ↔ HoldsEmptyGroup line) ∧
      ∀ first before after, tokens = first :: (before ++ .opening :: .closing :: after) →
        (∀ index, ¬ Token.Makes first tokens.tail (before.length + 1) index) ∧
        ((∀ index, ¬ Token.Makes first tokens.tail before.length index) →
          Arena.ofTokens tokens = Arena.ofTokens (first :: (before ++ after))) ∧
        ∀ index, Token.Makes first tokens.tail before.length index →
          (Arena.ofTokens tokens).node? index = some ⟨.opening, #[]⟩ := by
  refine ⟨emptyGroup_infix_tokens_iff h, ?_⟩
  rintro first before after rfl
  rw [List.tail_cons]
  refine ⟨fun index => Builder.not_makes_closing (by simp), ?_, ?_⟩
  · intro hopening
    have hmakes : (Builder.run first before).makesNode .opening = false := by
      rw [Bool.eq_false_iff]
      intro hnode
      exact hopening _ (Builder.makes_length_iff.mpr ⟨hnode, rfl⟩)
    exact congrArg Builder.arena (Builder.run_emptyGroup hmakes)
  · intro index hopening
    obtain ⟨hmakes, rfl⟩ := Builder.makes_length_iff.mp hopening
    exact Builder.node?_run_emptyGroup hmakes

/-- In `f( )\z.( )\y. ` the brackets behind the first dot are at the head of its group, so their
opening is the label of a node. The last dot leaves nothing in the tree. -/
theorem empty_groups_of_brackets_and_dots :
    let line := ['f', '(', ' ', ')', '\\', 'z', '.', '(', ' ', ')', '\\', 'y', '.', ' ']
    let first : Token := .name "f"
    let tokens := [first, .opening, .closing, .lambda, .name "z", .opening, .opening, .closing,
      .lambda, .name "y", .opening, .closing, .closing]
    tokenize line = .ok tokens ∧
      (HoldsEmptyGroup line ∧ [.opening, .closing] <:+: tokens) ∧
      ((∀ index, ¬ Token.Makes first tokens.tail 9 index) ∧
        Arena.ofTokens tokens = Arena.ofTokens [first, .opening, .closing, .lambda, .name "z",
          .opening, .opening, .closing, .lambda, .name "y", .closing]) ∧
      Token.Makes first tokens.tail 5 3 ∧
        (Arena.ofTokens tokens).node? 3 = some ⟨.opening, #[]⟩ := by
  intro line first tokens
  have haccepted : tokenize line = .ok tokens := rfl
  have hdot : HoldsEmptyGroup line :=
    .lastDot (List.forall_mem_singleton.mpr rfl) ⟨line.take 12, rfl⟩
  obtain ⟨hiff, hpairs⟩ := empty_groups_of_line haccepted
  have hunlabelled : ∀ index, ¬ Token.Makes first tokens.tail 9 index := by
    rintro index ⟨hbefore, hbehind⟩
    exact Nat.succ_ne_self index (hbehind.symm.trans hbefore)
  have hlabel : Token.Makes first tokens.tail 5 3 := ⟨rfl, rfl⟩
  have hlast := hpairs first
    [.opening, .closing, .lambda, .name "z", .opening, .opening, .closing, .lambda, .name "y"]
    [.closing] rfl
  have hhead := hpairs first [.opening, .closing, .lambda, .name "z", .opening]
    [.lambda, .name "y", .opening, .closing, .closing] rfl
  exact ⟨haccepted, ⟨hdot, hiff.mpr hdot⟩, ⟨hunlabelled, hlast.2.1 hunlabelled⟩, hlabel,
    hhead.2.2 3 hlabel⟩

end LambdaSyntax
