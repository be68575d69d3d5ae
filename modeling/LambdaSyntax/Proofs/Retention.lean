import LambdaSyntax.Proofs.Groups
import LambdaSyntax.Proofs.Growth

/-!
Which names and lambdas of a line reach its tree.

The tokenizer matches closings with openings by nesting. The builder does not: an opening that
directly follows the start of a group labels that group's node and starts no group of its own, so
the closing that nesting gives to it ends another group. With such doubled openings the root's group
can end early, and the builder ignores what follows.

* `Builder.labels_run`: the nodes that the builder makes, by the number of open groups alone.
* `Builder.keepsTerms`: the names and lambdas that get nodes are an initial part of those read, and
  all of them exactly if the root's group stays open up to the last one.
* `terms_kept_iff`: the same of the tree of an accepted line, in the order of its traversal.
* `not_all_terms_kept`: not every line keeps all its names and lambdas.
-/

namespace LambdaSyntax

namespace Token

/-- Whether a token is a name or a lambda. -/
def isTerm : Token → Bool
  | .name _ => true
  | .lambda => true
  | .opening => false
  | .closing => false

/-- The names and lambdas of a token sequence, in order. -/
def terms (tokens : List Token) : List Token :=
  tokens.filter isTerm

/-- The number of openings that label a node: those that directly follow the start of a group, which
in a run of openings are the second, the fourth and so on. `afterStart` tells whether the token
before starts a group. -/
def doubled (afterStart : Bool) : List Token → Nat
  | [] => 0
  | .opening :: rest => if afterStart then doubled false rest + 1 else doubled true rest
  | _ :: rest => doubled false rest

/-- Up to the last name or lambda, the root's group stays open: behind the root, no more groups are
closed than are opened, where a doubled opening opens none. -/
def KeepsRootOpen (tokens : List Token) : Prop :=
  ∀ before after, tokens.tail = before ++ after → (∃ token ∈ after, token.isTerm = true) →
    before.count .closing + doubled false before ≤ before.count .opening

end Token

/-- The labels of a tree in pre-order, the openings left out. -/
def Arena.termLabels (arena : Arena) : List Token :=
  (arena.visits.map fun visit => visit.node.label).filter (· ≠ .opening)

/-! ### The nodes that the builder makes -/

/-- The labels of an arena's nodes, in the order of the arena. -/
def Arena.labels (arena : Arena) : List Token :=
  arena.nodes.toList.map Node.label

theorem Arena.termLabels_ofTokens (tokens : List Token) :
    (ofTokens tokens).termLabels = (ofTokens tokens).labels.filter (· ≠ .opening) := by
  rw [termLabels, labels, ← nodes_visits_ofTokens, List.map_map]
  rfl

theorem map_modify_of_forall {α β : Type} {f : α → α} {g : α → β} (h : ∀ x, g (f x) = g x)
    (xs : List α) (i : Nat) : (xs.modify i f).map g = xs.map g := by
  induction xs generalizing i with
  | nil => simp
  | cons x xs ih =>
      cases i with
      | zero => simp [h]
      | succ i => simp [ih]

theorem Arena.labels_attach (arena : Arena) (parent : Nat) (label : Token) :
    (arena.attach parent label).labels = arena.labels ++ [label] := by
  simp only [labels, attach, addChild, push, Array.toList_modify, Array.toList_push]
  rw [map_modify_of_forall]
  · simp
  · intro node
    rfl

namespace Builder

/-- The tokens among those read that get nodes, when `depth` groups are open before them. -/
def kept (depth : Nat) (awaitingHead : Bool) : List Token → List Token
  | [] => []
  | token :: rest =>
    match depth, awaitingHead with
    | 0, _ => []
    | depth + 1, true =>
      if token = .closing then kept (depth + 1) false rest
      else token :: kept (depth + 2) false rest
    | depth + 1, false =>
      match token with
      | .opening => kept (depth + 1) true rest
      | .closing => kept depth false rest
      | leaf => leaf :: kept (depth + 1) false rest

theorem kept_zero (awaitingHead : Bool) (rest : List Token) : kept 0 awaitingHead rest = [] := by
  cases rest <;> simp [kept]

/-- **Every token gets a node or none by the number of open groups alone.** -/
theorem labels_run (builder : Builder) (rest : List Token) :
    (rest.foldl step builder).arena.labels =
      builder.arena.labels ++ kept builder.openNodes.length builder.awaitingHead rest := by
  induction rest generalizing builder with
  | nil => simp [kept]
  | cons token rest ih =>
      rw [List.foldl_cons, ih]
      obtain ⟨arena, openNodes, awaitingHead⟩ := builder
      cases openNodes with
      | nil => simp [step, kept_zero]
      | cons parent outer =>
          cases awaitingHead with
          | true =>
              by_cases hclosing : token = .closing
              · simp [step, kept, hclosing]
              · simp [step, kept, hclosing, Arena.labels_attach]
          | false =>
              cases token with
              | opening => simp [step, kept]
              | closing => simp [step, kept]
              | name text => simp [step, kept, Arena.labels_attach]
              | lambda => simp [step, kept, Arena.labels_attach]

/-- Up to the last name or lambda a group stays open, when `depth` groups are open before the
tokens. -/
def StaysOpen (depth : Nat) (awaitingHead : Bool) (tokens : List Token) : Prop :=
  ∀ before after, tokens = before ++ after → (∃ token ∈ after, token.isTerm = true) →
    before.count .closing + Token.doubled awaitingHead before <
      depth + awaitingHead.toNat + before.count .opening

/-- One token moves the balance of groups as it moves the builder. -/
theorem staysOpen_cons_iff {depth depth' : Nat} {awaitingHead awaitingHead' : Bool} {token : Token}
    {rest : List Token} (hopen : 0 < depth)
    (hbalance : ∀ before : List Token,
      (token :: before).count .closing + Token.doubled awaitingHead (token :: before) +
          (depth' + awaitingHead'.toNat + before.count .opening) =
        before.count .closing + Token.doubled awaitingHead' before +
          (depth + awaitingHead.toNat + (token :: before).count .opening)) :
    StaysOpen depth awaitingHead (token :: rest) ↔ StaysOpen depth' awaitingHead' rest := by
  constructor
  · intro h before after hrest hterm
    have hcons := h (token :: before) after (by rw [hrest, List.cons_append]) hterm
    have := hbalance before
    omega
  · intro h before after hrest hterm
    rcases List.cons_eq_append_iff.mp hrest with ⟨rfl, -⟩ | ⟨inner, rfl, hinner⟩
    · simp only [List.count_nil, Token.doubled]
      omega
    · have hrest' := h inner after hinner hterm
      have := hbalance inner
      omega

theorem staysOpen_zero_iff {rest : List Token} :
    StaysOpen 0 false rest ↔ Token.terms rest = [] := by
  rw [Token.terms, List.filter_eq_nil_iff]
  constructor
  · intro h token hmem hterm
    have := h [] rest rfl ⟨token, hmem, hterm⟩
    simp at this
  · rintro h before after rfl ⟨token, hmem, hterm⟩
    exact absurd hterm (h token (List.mem_append_right before hmem))

/-- The names and lambdas that get nodes are the first of those read, and all of them exactly if a
group stays open up to the last one. -/
def KeepsTerms (depth : Nat) (awaitingHead : Bool) (tokens : List Token) : Prop :=
  (kept depth awaitingHead tokens).filter (· ≠ .opening) <+: Token.terms tokens ∧
    ((kept depth awaitingHead tokens).filter (· ≠ .opening) = Token.terms tokens ↔
      StaysOpen depth awaitingHead tokens)

section Cons

variable {depth depth' : Nat} {awaitingHead awaitingHead' : Bool} {token : Token}
  {rest : List Token}

theorem terms_cons_of_group (hterm : token.isTerm = false) :
    Token.terms (token :: rest) = Token.terms rest := by
  simp [Token.terms, hterm]

/-- A name or lambda in front of labels and tokens makes no difference to whether they agree. -/
theorem cons_term_agrees_iff {labels : List Token} {exactly : Prop}
    (hterm : token.isTerm = true) :
    ((token :: labels).filter (· ≠ .opening) <+: Token.terms (token :: rest) ∧
        ((token :: labels).filter (· ≠ .opening) = Token.terms (token :: rest) ↔ exactly)) ↔
      (labels.filter (· ≠ .opening) <+: Token.terms rest ∧
        (labels.filter (· ≠ .opening) = Token.terms rest ↔ exactly)) := by
  have hterms : Token.terms (token :: rest) = token :: Token.terms rest := by
    simp [Token.terms, hterm]
  have hopening : token ≠ .opening := by
    rintro rfl
    cases hterm
  rw [hterms, List.filter_cons_of_pos (by simpa using hopening), List.prefix_cons_inj,
    List.cons.injEq, eq_self, true_and]

/-- An opening or closing changes nothing, whether it gets a node or not. -/
theorem KeepsTerms.cons_group (h : KeepsTerms depth' awaitingHead' rest)
    (hterm : token.isTerm = false)
    (hkept : (kept depth awaitingHead (token :: rest)).filter (· ≠ .opening) =
      (kept depth' awaitingHead' rest).filter (· ≠ .opening))
    (hstays : StaysOpen depth awaitingHead (token :: rest) ↔ StaysOpen depth' awaitingHead' rest) :
    KeepsTerms depth awaitingHead (token :: rest) := by
  rw [KeepsTerms, hkept, terms_cons_of_group hterm, hstays]
  exact h

/-- A name or lambda is kept where a group is open. -/
theorem KeepsTerms.cons_term (h : KeepsTerms depth' awaitingHead' rest)
    (hterm : token.isTerm = true)
    (hkept : kept depth awaitingHead (token :: rest) = token :: kept depth' awaitingHead' rest)
    (hstays : StaysOpen depth awaitingHead (token :: rest) ↔ StaysOpen depth' awaitingHead' rest) :
    KeepsTerms depth awaitingHead (token :: rest) := by
  rw [KeepsTerms, hkept, hstays, cons_term_agrees_iff hterm]
  exact h

theorem kept_cons_term (hterm : token.isTerm = true) :
    kept (depth + 1) awaitingHead (token :: rest) =
      token :: kept (depth + 1 + awaitingHead.toNat) false rest := by
  cases token with
  | name text => cases awaitingHead <;> simp [kept]
  | lambda => cases awaitingHead <;> simp [kept]
  | opening => cases hterm
  | closing => cases hterm

theorem staysOpen_cons_term (hterm : token.isTerm = true) :
    StaysOpen (depth + 1) awaitingHead (token :: rest) ↔
      StaysOpen (depth + 1 + awaitingHead.toNat) false rest := by
  refine staysOpen_cons_iff (Nat.succ_pos depth) fun before => ?_
  cases token with
  | name text => simp [Token.doubled]
  | lambda => simp [Token.doubled]
  | opening => cases hterm
  | closing => cases hterm

end Cons

/-- **Which names and lambdas get nodes**, from any state of the builder on. -/
theorem keepsTerms {depth : Nat} {awaitingHead : Bool} (tokens : List Token)
    (hawaiting : depth = 0 → awaitingHead = false) : KeepsTerms depth awaitingHead tokens := by
  induction tokens generalizing depth awaitingHead with
  | nil =>
      refine ⟨List.nil_prefix, ?_, ?_⟩
      · intro _ before after hnil hterm
        obtain ⟨-, rfl⟩ := List.append_eq_nil_iff.mp hnil.symm
        simp at hterm
      · intro _
        rfl
  | cons token rest ih =>
      cases depth with
      | zero =>
          rw [hawaiting rfl]
          refine ⟨List.nil_prefix, ?_⟩
          rw [staysOpen_zero_iff, kept_zero, List.filter_nil]
          exact eq_comm
      | succ depth =>
          cases hterm : token.isTerm with
          | true =>
              have hrest : KeepsTerms (depth + 1 + awaitingHead.toNat) false rest := ih fun _ => rfl
              exact hrest.cons_term hterm (kept_cons_term hterm) (staysOpen_cons_term hterm)
          | false =>
              cases token with
              | name text => cases hterm
              | lambda => cases hterm
              | opening =>
                  cases awaitingHead with
                  | true =>
                      have hrest : KeepsTerms (depth + 2) false rest := ih fun _ => rfl
                      refine hrest.cons_group rfl (by simp [kept]) ?_
                      refine staysOpen_cons_iff (Nat.succ_pos depth) fun before => ?_
                      simp [Token.doubled]
                      omega
                  | false =>
                      have hrest : KeepsTerms (depth + 1) true rest := ih (by simp)
                      refine hrest.cons_group rfl (by simp [kept]) ?_
                      refine staysOpen_cons_iff (Nat.succ_pos depth) fun before => ?_
                      simp [Token.doubled]
                      omega
              | closing =>
                  cases awaitingHead with
                  | true =>
                      have hrest : KeepsTerms (depth + 1) false rest := ih fun _ => rfl
                      refine hrest.cons_group rfl (by simp [kept]) ?_
                      refine staysOpen_cons_iff (Nat.succ_pos depth) fun before => ?_
                      simp [Token.doubled]
                      omega
                  | false =>
                      have hrest : KeepsTerms depth false rest := ih fun _ => rfl
                      refine hrest.cons_group rfl (by simp [kept]) ?_
                      refine staysOpen_cons_iff (Nat.succ_pos depth) fun before => ?_
                      simp [Token.doubled]
                      omega

end Builder

/-! ### The tree of a line -/

theorem Token.keepsRootOpen_cons_iff {first : Token} {rest : List Token} :
    KeepsRootOpen (first :: rest) ↔ Builder.StaysOpen 1 false rest := by
  refine forall_congr' fun before => forall_congr' fun after => ?_
  rw [List.tail_cons]
  refine imp_congr_right fun _ => imp_congr_right fun _ => ?_
  rw [Bool.toNat_false]
  omega

/-- The first token of a line closes nothing. -/
theorem head_ne_closing {line : List Char} {first : Token} {rest : List Token}
    (h : tokenize line = .ok (first :: rest)) : first ≠ .closing := by
  obtain ⟨hcheck, scan, hrun, -, htokens⟩ := tokenize_eq_ok_iff.mp h
  have hnests := Scan.nests_closeGroups hcheck hrun
  rw [← htokens] at hnests
  exact hnests.head_ne_closing Token.opening_ne_closing

/-- **The names and lambdas of a line in its tree.** In the order of the traversal, they are an
initial part of those of its tokens; none is missing exactly if the tokens keep the root's group
open. -/
theorem terms_kept_iff {line : List Char} {tokens : List Token} (h : tokenize line = .ok tokens) :
    (Arena.ofTokens tokens).termLabels <+: Token.terms tokens ∧
      ((Arena.ofTokens tokens).termLabels = Token.terms tokens ↔ Token.KeepsRootOpen tokens) := by
  cases tokens with
  | nil =>
      refine ⟨List.nil_prefix, ?_, ?_⟩
      · intro _ before after hnil hterm
        obtain ⟨-, rfl⟩ := List.append_eq_nil_iff.mp hnil.symm
        simp at hterm
      · intro _
        rfl
  | cons first rest =>
      have hlabels : (Arena.ofTokens (first :: rest)).termLabels =
          (first :: Builder.kept 1 false rest).filter (· ≠ .opening) := by
        rw [Arena.termLabels_ofTokens, Arena.ofTokens, Builder.run, Builder.labels_run]
        rfl
      have hrest : Builder.KeepsTerms 1 false rest := Builder.keepsTerms rest (by simp)
      rw [hlabels, Token.keepsRootOpen_cons_iff]
      cases first with
      | closing => exact absurd rfl (head_ne_closing h)
      | opening => exact hrest
      | name text => exact (Builder.cons_term_agrees_iff rfl).mpr hrest
      | lambda => exact (Builder.cons_term_agrees_iff rfl).mpr hrest

/-- In `x ((y))` the second bracket is doubled, but no name stands behind the end of the root's
group. -/
theorem doubled_brackets_at_the_end :
    tokenize ['x', ' ', '(', '(', 'y', ')', ')'] =
        .ok [.name "x", .opening, .opening, .name "y", .closing, .closing] ∧
      (Arena.ofTokens [.name "x", .opening, .opening, .name "y", .closing, .closing]).termLabels =
        [.name "x", .name "y"] ∧
      Token.KeepsRootOpen [.name "x", .opening, .opening, .name "y", .closing, .closing] := by
  have haccepted : tokenize ['x', ' ', '(', '(', 'y', ')', ')'] =
      .ok [.name "x", .opening, .opening, .name "y", .closing, .closing] := rfl
  have hlabels : (Arena.ofTokens
      [.name "x", .opening, .opening, .name "y", .closing, .closing]).termLabels =
        [.name "x", .name "y"] := rfl
  exact ⟨haccepted, hlabels, (terms_kept_iff haccepted).2.mp hlabels⟩

/-- **Not every line keeps all its names and lambdas.** The tree of `x ((y)) z` has no `z`: the
second bracket labels the node of the first one's group and starts none of its own, so the closing
brackets end the first one's group and then the root's. -/
theorem not_all_terms_kept :
    ¬ ∀ (line : List Char) (tokens : List Token), tokenize line = .ok tokens → tokens ≠ [] →
      (tokens.head? = some .opening → ∃ inner, Nests Token.opening Token.closing inner ∧
        tokens = .opening :: inner ++ [.closing]) →
      (Arena.ofTokens tokens).termLabels = Token.terms tokens := by
  intro h
  have haccepted : tokenize ['x', ' ', '(', '(', 'y', ')', ')', ' ', 'z'] =
      .ok [.name "x", .opening, .opening, .name "y", .closing, .closing, .name "z"] := rfl
  have hkept := h _ _ haccepted (List.cons_ne_nil _ _) (by simp)
  revert hkept
  decide

end LambdaSyntax
