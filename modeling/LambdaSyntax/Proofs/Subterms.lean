import LambdaSyntax.Proofs.Descent
import LambdaSyntax.Proofs.Retention
import LambdaSyntax.Proofs.Trimming
import LambdaSyntax.Proofs.WellFormed

/-!
Terms as parts of other terms.

A term can stand as a group among other tokens. Its node should then have the children that its root
has alone, and what follows the group should be read as if the group were not there. Nesting alone
does not give this: an opening that labels a node starts no group, so the closing that nesting gives
to it ends the group around. Without doubled openings the descent and nesting agree on where a group
ends.

* `Token.readsAlone_of_nests`: what nests and has no doubled opening is read as a whole, whatever
  follows.
* `Token.labelsAll_readChildren_append_terms`: without doubled openings, the labels read are the
  names and lambdas before the tokens left.
* `Arena.subterm_in_context`: the tree of a line, alone and as a group among other tokens.
-/

namespace LambdaSyntax

namespace Token

theorem isTerm_of_ne {token : Token} (hopening : token ≠ .opening)
    (hclosing : token ≠ .closing) : token.isTerm = true := by
  cases token with
  | name text => rfl
  | lambda => rfl
  | opening => exact absurd rfl hopening
  | closing => exact absurd rfl hclosing

theorem terms_cons_of_isTerm {token : Token} (h : token.isTerm = true) (rest : List Token) :
    terms (token :: rest) = token :: terms rest :=
  List.filter_cons_of_pos h

/-! ### Tokens that are read as a whole -/

/-- Tokens that are read to their end, after which the reading goes on as if it started there. -/
def ReadsAlone (tokens : List Token) : Prop :=
  ∀ rest, readChildren (tokens ++ rest) =
    ((readChildren tokens).1 ++ (readChildren rest).1, (readChildren rest).2)

section ReadsAlone

variable {token head : Token} {inner tokens : List Token}

theorem readsAlone_nil : ReadsAlone [] := by
  intro rest
  rw [readChildren_nil, List.nil_append, List.nil_append]

/-- A leaf in front makes no difference. -/
theorem readsAlone_leaf_iff (hopening : token ≠ .opening) (hclosing : token ≠ .closing) :
    ReadsAlone (token :: tokens) ↔ ReadsAlone tokens := by
  refine forall_congr' fun rest => ?_
  rw [List.cons_append, readChildren_leaf hopening hclosing, readChildren_leaf hopening hclosing]
  simp [Prod.ext_iff]

theorem ReadsAlone.emptyGroup (h : ReadsAlone tokens) :
    ReadsAlone (.opening :: .closing :: tokens) := by
  intro rest
  rw [List.cons_append, List.cons_append, readChildren_emptyGroup, readChildren_emptyGroup]
  exact h rest

/-- The closing behind tokens that are read alone ends the group that they stand in. -/
theorem ReadsAlone.readChildren_append_closing (h : ReadsAlone inner) (rest : List Token) :
    readChildren (inner ++ .closing :: rest) = ((readChildren inner).1, rest) := by
  rw [h, readChildren_closing, List.append_nil]

theorem ReadsAlone.group (hhead : head ≠ .closing) (hinner : ReadsAlone inner)
    (htokens : ReadsAlone tokens) :
    ReadsAlone (.opening :: head :: inner ++ .closing :: tokens) := by
  intro rest
  have hbehind : .opening :: head :: inner ++ .closing :: tokens ++ rest =
      .opening :: head :: (inner ++ .closing :: (tokens ++ rest)) := by simp
  have halone : .opening :: head :: inner ++ .closing :: tokens =
      .opening :: head :: (inner ++ .closing :: tokens) := rfl
  rw [hbehind, halone, readChildren_group hhead, readChildren_group hhead,
    hinner.readChildren_append_closing, hinner.readChildren_append_closing, htokens,
    List.cons_append]

/-- **What nests is read as a whole**, when no opening in it follows another. -/
theorem readsAlone_of_nests (h : Nests Token.opening Token.closing tokens)
    (hrow : ¬ [.opening, .opening] <:+: tokens) : ReadsAlone tokens := by
  induction h using Nests.induction opening_ne_closing with
  | nil => exact readsAlone_nil
  | plain token tokens _ hopening hclosing ih =>
      have htokens := ih fun hdoubled => hrow (hdoubled.trans (List.suffix_cons _ _).isInfix)
      exact (readsAlone_leaf_iff hopening hclosing).mpr htokens
  | group inner tokens _ hinner _ ihinner ihtokens =>
      have htokens := ihtokens fun hdoubled =>
        hrow (hdoubled.trans ⟨.opening :: inner ++ [.closing], [], by simp⟩)
      cases inner with
      | nil => exact htokens.emptyGroup
      | cons head inner =>
          -- The head of the group is a name or a lambda, so what follows it is read alone as well.
          have hclosing := hinner.head_ne_closing opening_ne_closing
          have hopening : head ≠ .opening := by
            rintro rfl
            exact hrow ⟨[], inner ++ .closing :: tokens, rfl⟩
          have hhead := ihinner fun hdoubled =>
            hrow (hdoubled.trans ⟨[.opening], .closing :: tokens, by simp⟩)
          exact .group hclosing ((readsAlone_leaf_iff hopening hclosing).mp hhead) htokens

/-- **Without doubled openings, names and lambdas are labels and nothing else is.** -/
theorem labelsAll_readChildren_append_terms (tokens : List Token)
    (hrow : ¬ [.opening, .opening] <:+: tokens) :
    Tree.labelsAll (readChildren tokens).1 ++ terms (readChildren tokens).2 = terms tokens := by
  induction tokens using readChildren_induction with
  | nil => simp [readChildren_nil, Tree.labelsAll]
  | closing rest => simp [readChildren_closing, Tree.labelsAll, terms, isTerm]
  | opening => simp [readChildren_opening, Tree.labelsAll, terms, isTerm]
  | emptyGroup rest ih =>
      have hrest := ih fun hdoubled => hrow (hdoubled.trans ⟨[.opening, .closing], [], by simp⟩)
      rw [readChildren_emptyGroup, hrest]
      rfl
  | group head rest hclosing ihchildren ihfurther =>
      have hopening : head ≠ .opening := by
        rintro rfl
        exact hrow ⟨[], rest, rfl⟩
      have hbehind : rest <:+: .opening :: head :: rest := ⟨[.opening, head], [], by simp⟩
      have hleft : (readChildren rest).2 <:+: rest := (siblings rest).left_suffix.isInfix
      have hchildren := ihchildren fun hdoubled => hrow (hdoubled.trans hbehind)
      have hfurther := ihfurther fun hdoubled => hrow ((hdoubled.trans hleft).trans hbehind)
      have hterms : terms (.opening :: head :: rest) = head :: terms rest :=
        terms_cons_of_isTerm (isTerm_of_ne hopening hclosing) rest
      rw [readChildren_group hclosing, hterms, ← hchildren, ← hfurther]
      simp [Tree.labelsAll, Tree.labels]
  | leaf token rest hopening hclosing ih =>
      have hrest := ih fun hdoubled => hrow (hdoubled.trans (List.suffix_cons _ _).isInfix)
      rw [readChildren_leaf hopening hclosing,
        terms_cons_of_isTerm (isTerm_of_ne hopening hclosing), ← hrest]
      simp [Tree.labelsAll, Tree.labels]

end ReadsAlone

end Token

/-! ### The tree of a line as a group -/

namespace Arena

theorem labels_visits_toArena (tree : Tree) :
    (tree.toArena.visits.map fun visit => visit.node.label) = tree.labels := by
  have hmap : (tree.toArena.visits.map Visit.node).map Node.label = tree.labels := by
    rw [Tree.nodes_visits_toArena, Tree.toArena, Tree.map_label_layout]
  rw [← hmap, List.map_map]
  rfl

/-- **Terms are read in context as they are alone.** Take a line that has a name or a lambda first
and no two adjacent openings. As a group behind any first token it gives the first child of the
root, with the tree that the line has alone, and the further children are those that the tokens
behind the group give by themselves. The nodes of its tree are in pre-order its names and
lambdas. -/
theorem subterm_in_context {line : List Char} {tokens : List Token}
    (h : tokenize line = .ok tokens) (hline : ∃ c ∈ line, Text.isBlank c = false)
    (hfirst : tokens.head? ≠ some .opening) (hrow : ¬ [.opening, .opening] <:+: tokens) :
    (∀ (first : Token) (more : List Token), ∃ subtree further,
      (ofTokens tokens).tree? = some subtree ∧
      (ofTokens (first :: more)).tree? = some (.node first further) ∧
      (ofTokens ([first, .opening] ++ tokens ++ [.closing] ++ more)).tree? =
        some (.node first (subtree :: further))) ∧
    ((ofTokens tokens).visits.map fun visit => visit.node.label) = Token.terms tokens := by
  have hnests := (Token.wellFormed_of_tokenize h).nests
  obtain ⟨head, rest, rfl⟩ : ∃ head rest, tokens = head :: rest := by
    refine List.exists_cons_of_ne_nil ?_
    rintro rfl
    obtain ⟨c, hmem, hc⟩ := hline
    rw [tokenize_eq_nil_iff.mp h c hmem] at hc
    cases hc
  have hopening : head ≠ .opening := fun hhead => hfirst (congrArg some hhead)
  have hclosing := hnests.head_ne_closing Token.opening_ne_closing
  have hdoubled : ¬ [Token.opening, .opening] <:+: rest :=
    fun hdoubled => hrow (hdoubled.trans (List.suffix_cons _ _).isInfix)
  have halone := Token.readsAlone_of_nests (hnests.tail hopening hclosing) hdoubled
  constructor
  · intro first more
    have hgroup : [first, .opening] ++ (head :: rest) ++ [.closing] ++ more =
        first :: .opening :: head :: (rest ++ .closing :: more) := by simp
    refine ⟨.node head (readChildren rest).1, (readChildren more).1, ?_, ?_, ?_⟩
    · rw [ofTokens_cons, Tree.tree?_toArena]
    · rw [ofTokens_cons, Tree.tree?_toArena]
    · rw [hgroup, ofTokens_cons, Tree.tree?_toArena, readChildren_group hclosing,
        halone.readChildren_append_closing]
  · have hend : (readChildren rest).2 = [] := by
      have hnil := halone []
      rw [List.append_nil, readChildren_nil, List.append_nil] at hnil
      exact congrArg Prod.snd hnil
    have hlabels := Token.labelsAll_readChildren_append_terms rest hdoubled
    rw [hend, Token.terms, List.filter_nil, List.append_nil] at hlabels
    rw [ofTokens_cons, labels_visits_toArena, Tree.labels, hlabels,
      Token.terms_cons_of_isTerm (Token.isTerm_of_ne hopening hclosing)]

/-- The line `\x.y ( )`, alone and behind a closing that labels the root, before an opening that
labels a node. -/
theorem empty_group_in_context :
    let line := ['\\', 'x', '.', 'y', ' ', '(', ' ', ')']
    let tokens := [Token.lambda, .name "x", .opening, .name "y", .opening, .closing, .closing]
    tokenize line = .ok tokens ∧ (∃ c ∈ line, Text.isBlank c = false) ∧
      tokens.head? ≠ some .opening ∧ ¬ [.opening, .opening] <:+: tokens ∧
      (∃ subtree further, (ofTokens tokens).tree? = some subtree ∧
        (ofTokens [.closing, .opening, .opening]).tree? = some (.node .closing further) ∧
        (ofTokens ([.closing, .opening] ++ tokens ++ [.closing] ++ [.opening, .opening])).tree? =
          some (.node .closing (subtree :: further))) ∧
      ((ofTokens tokens).visits.map fun visit => visit.node.label) =
        [.lambda, .name "x", .name "y"] := by
  intro line tokens
  have haccepted : tokenize line = .ok tokens := rfl
  have hline : ∃ c ∈ line, Text.isBlank c = false := ⟨'x', by decide, by decide⟩
  have hfirst : tokens.head? ≠ some .opening := by decide
  have hrow : ¬ [.opening, .opening] <:+: tokens := by decide
  obtain ⟨hcontext, hlabels⟩ := subterm_in_context haccepted hline hfirst hrow
  exact ⟨haccepted, hline, hfirst, hrow, hcontext .closing [.opening, .opening], hlabels⟩

end Arena

end LambdaSyntax
