import LambdaSyntax.Proofs.Descent

/-!
Trees written back as tokens.

`Tree.toTokens` writes a tree so that the builder makes it again. A child without children is
written as its label alone; any other child is a group that starts with its label. A childless child
with an opening as its label is written as a group as well, since alone it would start one.

The descent reads written children back whatever follows them (`readChildren_asChildren`), as long
as no label among them is a closing: at the head of a group a closing makes the group empty. The
root's label is not read in a group, so it can be any token.

* `Arena.ofTokens_toTokens`: building a written tree gives the layout of the tree.
* `Arena.toTokens_rebuilds`: every tree that was built can be written and built again.
-/

namespace LambdaSyntax

namespace Tree

mutual
/-- The tokens that write a tree as a child. -/
def asChild : Tree → List Token
  | .node label children =>
    if children.isEmpty ∧ label ≠ .opening then [label]
    else .opening :: label :: (asChildren children ++ [.closing])

/-- The tokens that write some children in order. -/
def asChildren : List Tree → List Token
  | [] => []
  | tree :: rest => tree.asChild ++ asChildren rest
end

/-- The tokens that write a whole tree: the root's label, and then its children. -/
def toTokens : Tree → List Token
  | .node label children => label :: asChildren children

end Tree

open LambdaSyntax.Tree

mutual
/-- **A written child is read back**, and the reading goes on behind it. -/
theorem readChildren_asChild (rest : List Token) : ∀ tree : Tree, Token.closing ∉ tree.labels →
    readChildren (tree.asChild ++ rest) = (tree :: (readChildren rest).1, (readChildren rest).2)
  | .node label children, h => by
      obtain ⟨hlabel, hchildren⟩ := List.ne_and_not_mem_of_not_mem_cons h
      by_cases hleaf : children.isEmpty ∧ label ≠ .opening
      · obtain ⟨hempty, hopening⟩ := hleaf
        obtain rfl := List.isEmpty_iff.mp hempty
        rw [asChild, if_pos ⟨rfl, hopening⟩, List.singleton_append,
          readChildren_leaf hopening hlabel.symm]
      · -- The children are read up to the closing that ends their group.
        have hgroup := readChildren_asChildren (.closing :: rest) children hchildren
        rw [readChildren_closing, List.append_nil] at hgroup
        rw [asChild, if_neg hleaf, List.cons_append, List.cons_append, List.append_assoc,
          List.singleton_append, readChildren_group hlabel.symm, hgroup]

theorem readChildren_asChildren (rest : List Token) : ∀ trees : List Tree,
    Token.closing ∉ labelsAll trees →
      readChildren (asChildren trees ++ rest) =
        (trees ++ (readChildren rest).1, (readChildren rest).2)
  | [], _ => rfl
  | tree :: trees, h => by
      rw [labelsAll, List.mem_append, not_or] at h
      obtain ⟨htree, htrees⟩ := h
      rw [asChildren, List.append_assoc, readChildren_asChild _ tree htree,
        readChildren_asChildren rest trees htrees, List.cons_append]
end

namespace Arena

/-- **Building a written tree gives its layout.** -/
theorem ofTokens_toTokens (label : Token) (children : List Tree)
    (h : Token.closing ∉ labelsAll children) :
    ofTokens (Tree.node label children).toTokens = (Tree.node label children).toArena := by
  have hread := readChildren_asChildren [] children h
  rw [List.append_nil, readChildren_nil, List.append_nil] at hread
  rw [toTokens, ofTokens_cons, hread]

/-- **Writing is undone by building.** A tree in which no node but the root has a closing as its
label is built again from its tokens, with its nodes in pre-order; and such is every tree that was
built, from any tokens. -/
theorem toTokens_rebuilds :
    (∀ tree : Tree, Token.closing ∉ tree.labels.tail →
      ofTokens tree.toTokens = tree.toArena) ∧
    ∀ tokens : List Token, tokens ≠ [] → ∃ tree,
      (ofTokens tokens).tree? = some tree ∧ ofTokens tree.toTokens = ofTokens tokens := by
  constructor
  · rintro ⟨label, children⟩ h
    exact ofTokens_toTokens label children h
  · intro tokens hne
    obtain ⟨first, rest, rfl⟩ := List.exists_cons_of_ne_nil hne
    rw [ofTokens_cons]
    exact ⟨_, tree?_toArena _,
      ofTokens_toTokens first _ (closing_not_mem_labelsAll_readChildren rest)⟩

/-- A closing at the root, and openings as labels with children and without. -/
theorem openings_as_labels_written_back :
    let tree : Tree := .node .closing [.node .opening [], .node .opening [.node .lambda []]]
    Token.closing ∉ tree.labels.tail ∧
      tree.toTokens = [.closing, .opening, .opening, .closing, .opening, .opening, .lambda,
        .closing] ∧
      ofTokens tree.toTokens = tree.toArena := by
  intro tree
  have hlabels : Token.closing ∉ tree.labels.tail := by decide
  exact ⟨hlabels, by decide, toTokens_rebuilds.1 tree hlabels⟩

end Arena

end LambdaSyntax
