import LambdaSyntax.Proofs.Descent
import LambdaSyntax.Tokenization

/-!
What more tokens do to a tree.

The builder only adds: a token gives a node behind all others, and an index at the end of one list
of children. So the arena built from the first part of some tokens is an initial segment of the
arena built from all of them (`Arena.GrowsInto`). A closing adds nothing, and where the root's group
is closed no token does. The one token that is not placed by a step is the first of all: it gives
the root whatever it is, so even a closing changes the empty tree.

* `Builder.growsInto_foldl_step`: the builder only adds, from any state and over any tokens.
* `Builder.foldl_step_of_openNodes_eq_nil`: no token changes a complete tree.
* `Arena.ofTokens_append`: all of this for the arenas built from tokens.
-/

namespace LambdaSyntax

namespace Arena

/-- An arena is an initial segment of another: its nodes have the same labels there, and their
children come first among the children there. -/
def GrowsInto (arena later : Arena) : Prop :=
  ∀ index node, arena.node? index = some node →
    ∃ grown, later.node? index = some grown ∧ grown.label = node.label ∧
      node.children.toList <+: grown.children.toList

namespace GrowsInto

theorem refl (arena : Arena) : arena.GrowsInto arena :=
  fun _ node hnode => ⟨node, hnode, rfl, List.prefix_refl _⟩

theorem trans {arena later latest : Arena} (hlater : arena.GrowsInto later)
    (hlatest : later.GrowsInto latest) : arena.GrowsInto latest := by
  intro index node hnode
  obtain ⟨grown, hgrown, hlabel, hchildren⟩ := hlater index node hnode
  obtain ⟨last, hlast, hlastLabel, hlastChildren⟩ := hlatest index grown hgrown
  exact ⟨last, hlast, hlastLabel.trans hlabel, hchildren.trans hlastChildren⟩

end GrowsInto

theorem growsInto_push (arena : Arena) (label : Token) : arena.GrowsInto (arena.push label) := by
  intro index node hnode
  refine ⟨node, ?_, rfl, List.prefix_refl _⟩
  have hindex := (Array.getElem?_eq_some_iff.mp hnode).1
  rw [node?, push, Array.getElem?_push_lt hindex, ← Array.getElem?_eq_getElem hindex]
  exact hnode

theorem growsInto_addChild (arena : Arena) (parent child : Nat) :
    arena.GrowsInto (arena.addChild parent child) := by
  intro index node hnode
  simp only [node?, addChild, Array.getElem?_modify] at hnode ⊢
  by_cases hparent : parent = index
  · exact ⟨{ node with children := node.children.push child }, by simp [hparent, hnode], rfl,
      by simp⟩
  · exact ⟨node, by simp [hparent, hnode], rfl, List.prefix_refl _⟩

theorem growsInto_attach (arena : Arena) (parent : Nat) (label : Token) :
    arena.GrowsInto (arena.attach parent label) :=
  (arena.growsInto_push label).trans ((arena.push label).growsInto_addChild parent arena.size)

end Arena

namespace Builder

/-- **A token only adds to the arena.** -/
theorem growsInto_step (builder : Builder) (token : Token) :
    builder.arena.GrowsInto (builder.step token).arena := by
  obtain ⟨arena, openNodes, awaitingHead⟩ := builder
  cases openNodes with
  | nil => exact .refl arena
  | cons parent outer =>
      cases awaitingHead with
      | true =>
          by_cases hclosing : token = .closing
          · rw [step, if_pos hclosing]
            exact .refl arena
          · rw [step, if_neg hclosing]
            exact arena.growsInto_attach parent token
      | false =>
          cases token with
          | opening => exact .refl arena
          | closing => exact .refl arena
          | name text => exact arena.growsInto_attach parent _
          | lambda => exact arena.growsInto_attach parent _

theorem growsInto_foldl_step (builder : Builder) (tokens : List Token) :
    builder.arena.GrowsInto (tokens.foldl step builder).arena := by
  induction tokens generalizing builder with
  | nil => exact .refl _
  | cons token rest ih => exact (builder.growsInto_step token).trans (ih _)

/-- A closing gives no node, whether it ends a group, stands at the head of one or comes too
late. -/
theorem arena_step_closing (builder : Builder) :
    (builder.step .closing).arena = builder.arena := by
  obtain ⟨arena, openNodes, awaitingHead⟩ := builder
  cases openNodes with
  | nil => rfl
  | cons parent outer =>
      cases awaitingHead with
      | true => rfl
      | false => rfl

theorem arena_foldl_step_closings (builder : Builder) {tokens : List Token}
    (h : ∀ token ∈ tokens, token = .closing) :
    (tokens.foldl step builder).arena = builder.arena := by
  induction tokens generalizing builder with
  | nil => rfl
  | cons token rest ih =>
      obtain ⟨rfl, hrest⟩ := List.forall_mem_cons.mp h
      rw [List.foldl_cons, ih _ hrest, arena_step_closing]

/-- **No token changes a complete tree.** -/
theorem foldl_step_of_openNodes_eq_nil {builder : Builder} (h : builder.openNodes = [])
    (tokens : List Token) : tokens.foldl step builder = builder := by
  obtain ⟨arena, openNodes, awaitingHead⟩ := builder
  obtain rfl : openNodes = [] := h
  induction tokens with
  | nil => rfl
  | cons token rest ih => exact ih

theorem run_append (first : Token) (before after : List Token) :
    run first (before ++ after) = after.foldl step (run first before) :=
  List.foldl_append

end Builder

/-- A part of the tokens, from the first one on, ends the root's group, so that no group is open
behind it. -/
def Token.ClosesRoot (tokens : List Token) : Prop :=
  ∃ first before, first :: before <+: tokens ∧ (Builder.run first before).openNodes = []

namespace Arena

/-! ### The tree of a longer sequence -/

variable {tokens more : List Token}

theorem ofTokens_cons_append (first : Token) (rest more : List Token) :
    ofTokens (first :: rest ++ more) =
      (more.foldl Builder.step (Builder.run first rest)).arena := by
  rw [List.cons_append, ofTokens, Builder.run_append]

theorem growsInto_ofTokens_append (tokens more : List Token) :
    (ofTokens tokens).GrowsInto (ofTokens (tokens ++ more)) := by
  cases tokens with
  | nil =>
      intro index node hnode
      simp [ofTokens, empty, node?] at hnode
  | cons first rest =>
      rw [ofTokens_cons_append]
      exact Builder.growsInto_foldl_step _ more

theorem ofTokens_append_closings (hne : tokens ≠ []) (h : ∀ token ∈ more, token = .closing) :
    ofTokens (tokens ++ more) = ofTokens tokens := by
  obtain ⟨first, rest, rfl⟩ := List.exists_cons_of_ne_nil hne
  rw [ofTokens_cons_append]
  exact Builder.arena_foldl_step_closings _ h

/-- Closings behind some tokens leave the tree as it is, unless they are the first tokens of all. -/
theorem ofTokens_append_closings_iff (h : ∀ token ∈ more, token = .closing) :
    ofTokens (tokens ++ more) = ofTokens tokens ↔ (tokens = [] → more = []) := by
  by_cases hne : tokens = []
  · subst hne
    rw [List.nil_append]
    exact ofTokens_eq_empty_iff.trans (by simp)
  · exact iff_of_true (ofTokens_append_closings hne h) fun hnil => absurd hnil hne

theorem ofTokens_append_of_closesRoot (h : Token.ClosesRoot tokens) (more : List Token) :
    ofTokens (tokens ++ more) = ofTokens tokens := by
  obtain ⟨first, before, ⟨after, rfl⟩, hclosed⟩ := h
  have hbehind : ∀ behind : List Token,
      ofTokens (first :: before ++ behind) = (Builder.run first before).arena := by
    intro behind
    rw [ofTokens_cons_append, Builder.foldl_step_of_openNodes_eq_nil hclosed]
  rw [List.append_assoc, hbehind, hbehind]

/-- The closings that end the open groups of a line make no difference to its tree. -/
theorem ofTokens_closeGroups (tokens : List Token) :
    ofTokens (Token.closeGroups tokens) = ofTokens tokens := by
  cases tokens with
  | nil => rfl
  | cons first rest =>
      exact ofTokens_append_closings (List.cons_ne_nil first rest)
        fun _ hmem => List.eq_of_mem_replicate hmem

/-- **More tokens only extend a tree.** Its arena is an initial segment of the one that more tokens
give. If these are all closings, the tree is the same, except where there were no tokens before
them; so the closings that end the open groups of a line have no influence. Nor has any token where
the root's group is closed. -/
theorem ofTokens_append (tokens more : List Token) :
    (ofTokens tokens).GrowsInto (ofTokens (tokens ++ more)) ∧
      ((∀ token ∈ more, token = .closing) →
        (ofTokens (tokens ++ more) = ofTokens tokens ↔ (tokens = [] → more = []))) ∧
      ofTokens (Token.closeGroups tokens) = ofTokens tokens ∧
      (Token.ClosesRoot tokens → ofTokens (tokens ++ more) = ofTokens tokens) :=
  ⟨growsInto_ofTokens_append tokens more, ofTokens_append_closings_iff,
    ofTokens_closeGroups tokens, fun h => ofTokens_append_of_closesRoot h more⟩

/-- Closings behind an opening without a head; and a doubled opening, which has the root's group end
before a further name. -/
theorem opening_without_head_and_doubled_opening :
    (∀ token ∈ [Token.closing, .closing], token = .closing) ∧
      ofTokens ([.name "x", .opening] ++ [.closing, .closing]) = ofTokens [.name "x", .opening] ∧
      Token.ClosesRoot [.name "x", .opening, .opening, .closing, .closing] ∧
      ofTokens ([.name "x", .opening, .opening, .closing, .closing] ++ [.name "z"]) =
        ofTokens [.name "x", .opening, .opening, .closing, .closing] := by
  have hclosings : ∀ token ∈ [Token.closing, .closing], token = .closing := by decide
  have hroot : Token.ClosesRoot [.name "x", .opening, .opening, .closing, .closing] :=
    ⟨.name "x", _, List.prefix_refl _, rfl⟩
  exact ⟨hclosings, ((ofTokens_append _ _).2.1 hclosings).mpr (by decide), hroot,
    (ofTokens_append _ _).2.2.2 hroot⟩

/-- **A closing is not always without effect**: as the only token it is the label of the root. -/
theorem closing_after_no_tokens :
    ¬ ∀ tokens more : List Token, (∀ token ∈ more, token = .closing) →
      ofTokens (tokens ++ more) = ofTokens tokens := by
  intro h
  have hclosing := h [] [.closing] (by decide)
  revert hclosing
  decide

end Arena

end LambdaSyntax
