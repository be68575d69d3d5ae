import LambdaSyntax.Proofs.Growth

/-!
The tree of a token sequence by recursive descent.

`readChildren` is the recursive reading of a group. Each group it meets is read by a call of its
own, which gives the children of the group's node and the tokens behind the group, and the reading
goes on with those. A group that the tokens do not close reaches up to their end.

`Arena.tree?` is the tree that an arena stands for: the indices of the children are followed from
the root on. It takes nothing from the way in which the arena was made.

* `labelsAll_readChildren_sublist`: the labels read are tokens in their order; no closing is one
  (`closing_not_mem_labelsAll_readChildren`).
* `Growth.tree_foldl_step`: what the builder's machine grows in a group is what the descent reads.
* `Arena.ofTokens_cons`: the arena built is the layout of the tree of the descent.
* `Tree.tree?_toArena`: the arena of a tree stands for this tree.
* `Arena.tree?_ofTokens`: the arena built stands for the tree of the descent.
-/

namespace LambdaSyntax

/-! ### Recursive descent -/

/-- The children of one node, read from the front of a token sequence, and the tokens that are left
behind them. -/
structure Siblings (tokens : List Token) where
  trees : List Tree
  left : List Token
  left_suffix : left <:+ tokens

/-- Reads the children of a node up to the closing of its group, which is read too, or to the end of
the tokens. An opening that is closed at once or that stands last gives no child. Any other opening
gives a child whose label is the token behind it, whatever that is. -/
def siblings : (tokens : List Token) → Siblings tokens
  | [] => ⟨[], [], List.suffix_rfl⟩
  | .closing :: rest => ⟨[], rest, List.suffix_cons _ _⟩
  | [.opening] => ⟨[], [], List.nil_suffix⟩
  | .opening :: head :: rest =>
    have hrest : rest <:+ .opening :: head :: rest := ⟨[.opening, head], rfl⟩
    if head = .closing then
      let further := siblings rest
      ⟨further.trees, further.left, further.left_suffix.trans hrest⟩
    else
      let children := siblings rest
      let further := siblings children.left
      ⟨.node head children.trees :: further.trees, further.left,
        further.left_suffix.trans (children.left_suffix.trans hrest)⟩
  | leaf :: rest =>
    let further := siblings rest
    ⟨.node leaf [] :: further.trees, further.left,
      further.left_suffix.trans (List.suffix_cons _ _)⟩
termination_by tokens => tokens.length
decreasing_by
  · simp only [List.length_cons]
    omega
  · simp only [List.length_cons]
    omega
  · exact Nat.lt_succ_of_le (Nat.le_succ_of_le (Siblings.left_suffix _).length_le)
  · exact Nat.lt_succ_self _

/-- The children read, and the tokens left behind them. -/
def readChildren (tokens : List Token) : List Tree × List Token :=
  ((siblings tokens).trees, (siblings tokens).left)

/-- The tree of a token sequence: the first token labels the root, and the others are read as its
children until its group ends. No tokens give no tree. -/
def Tree.ofTokens? : List Token → Option Tree
  | [] => none
  | first :: rest => some (.node first (readChildren rest).1)

section ReadChildren

variable {token head : Token} {rest : List Token}

theorem readChildren_nil : readChildren [] = ([], []) := by
  simp [readChildren, siblings]

theorem readChildren_closing : readChildren (.closing :: rest) = ([], rest) := by
  simp [readChildren, siblings]

theorem readChildren_opening : readChildren [.opening] = ([], []) := by
  simp [readChildren, siblings]

theorem readChildren_emptyGroup :
    readChildren (.opening :: .closing :: rest) = readChildren rest := by
  simp [readChildren, siblings]

theorem readChildren_group (hhead : head ≠ .closing) :
    readChildren (.opening :: head :: rest) =
      (.node head (readChildren rest).1 :: (readChildren (readChildren rest).2).1,
        (readChildren (readChildren rest).2).2) := by
  simp [readChildren, siblings, hhead]

theorem readChildren_leaf (hopening : token ≠ .opening) (hclosing : token ≠ .closing) :
    readChildren (token :: rest) =
      (.node token [] :: (readChildren rest).1, (readChildren rest).2) := by
  cases token with
  | name text => simp [readChildren, siblings]
  | lambda => simp [readChildren, siblings]
  | opening => exact absurd rfl hopening
  | closing => exact absurd rfl hclosing

end ReadChildren

/-- Induction along the descent: into a group, and on behind it. -/
@[elab_as_elim]
theorem readChildren_induction {motive : List Token → Prop}
    (nil : motive [])
    (closing : ∀ rest, motive (.closing :: rest))
    (opening : motive [.opening])
    (emptyGroup : ∀ rest, motive rest → motive (.opening :: .closing :: rest))
    (group : ∀ head rest, head ≠ .closing → motive rest → motive (readChildren rest).2 →
      motive (.opening :: head :: rest))
    (leaf : ∀ token rest, token ≠ .opening → token ≠ .closing → motive rest →
      motive (token :: rest))
    (tokens : List Token) : motive tokens := by
  induction tokens using siblings.induct with
  | case1 => exact nil
  | case2 rest => exact closing rest
  | case3 => exact opening
  | case4 rest _ ih => exact emptyGroup rest ih
  | case5 head rest _ hhead _ ihchildren ihfurther =>
      exact group head rest hhead ihchildren ihfurther
  | case6 token rest hclosing hlast hopening ih =>
      refine leaf token rest ?_ hclosing ih
      rintro rfl
      cases rest with
      | nil => exact hlast rfl rfl
      | cons head rest => exact hopening head rest rfl rfl

/-! ### The labels of what is read -/

namespace Tree

mutual
/-- The labels of a tree in pre-order. -/
def labels : Tree → List Token
  | .node label children => label :: labelsAll children

/-- The labels of some trees, one tree after the other. -/
def labelsAll : List Tree → List Token
  | [] => []
  | tree :: rest => tree.labels ++ labelsAll rest
end

mutual
theorem map_label_layout (start : Nat) :
    ∀ tree : Tree, (tree.layout start).map Node.label = tree.labels
  | .node label children => by simp [layout, labels, map_label_layouts (start + 1) children]

theorem map_label_layouts (start : Nat) :
    ∀ trees : List Tree, (layouts start trees).map Node.label = labelsAll trees
  | [] => rfl
  | tree :: rest => by
      simp [layouts, labelsAll, map_label_layout start tree,
        map_label_layouts (start + tree.size) rest]
end

theorem length_labelsAll (trees : List Tree) : (labelsAll trees).length = sizes trees := by
  rw [← map_label_layouts 0, List.length_map, length_layouts]

end Tree

/-- **Every label is a token of its own.** The labels read and, behind them, the tokens left stand
in the tokens in this order, and no closing is a label. -/
theorem labelsAll_readChildren_sublist (tokens : List Token) :
    (Tree.labelsAll (readChildren tokens).1 ++
        (readChildren tokens).2.filter (· ≠ .closing)).Sublist (tokens.filter (· ≠ .closing)) := by
  induction tokens using readChildren_induction with
  | nil => simp [readChildren_nil, Tree.labelsAll]
  | closing rest => simp [readChildren_closing, Tree.labelsAll]
  | opening => simp [readChildren_opening, Tree.labelsAll]
  | emptyGroup rest ih =>
      rw [readChildren_emptyGroup]
      exact ih.cons .opening
  | group head rest hhead ihchildren ihfurther =>
      rw [readChildren_group hhead]
      have hrest := (ihfurther.append_left (Tree.labelsAll (readChildren rest).1)).trans ihchildren
      have hgroup := (hrest.cons_cons head).cons .opening
      simpa [Tree.labelsAll, Tree.labels, hhead] using hgroup
  | leaf token rest hopening hclosing ih =>
      rw [readChildren_leaf hopening hclosing]
      simpa [Tree.labelsAll, Tree.labels, hclosing] using ih.cons_cons token

theorem closing_not_mem_labelsAll_readChildren (tokens : List Token) :
    Token.closing ∉ Tree.labelsAll (readChildren tokens).1 := by
  intro hmem
  have hfilter := (labelsAll_readChildren_sublist tokens).subset (List.mem_append_left _ hmem)
  simp at hfilter

/-- No token gives more than one node. -/
theorem sizes_readChildren_le (tokens : List Token) :
    Tree.sizes (readChildren tokens).1 ≤ tokens.length := by
  have hlength := (labelsAll_readChildren_sublist tokens).length_le
  have hfilter := List.length_filter_le (· ≠ Token.closing) tokens
  rw [List.length_append, Tree.length_labelsAll] at hlength
  omega

/-! ### The builder's machine reads what the descent reads -/

namespace Frame

/-- The node with further children. -/
def append (frame : Frame) (children : List Tree) : Frame :=
  ⟨frame.label, frame.children ++ children⟩

@[simp] theorem append_nil (frame : Frame) : frame.append [] = frame := by
  simp [append]

theorem append_cons (frame : Frame) (child : Tree) (children : List Tree) :
    frame.append (child :: children) = (frame.add child).append children := by
  simp [append, add]

end Frame

namespace Growth

theorem foldl_step_complete (tree : Tree) (tokens : List Token) :
    tokens.foldl step (.complete tree) = .complete tree := by
  induction tokens with
  | nil => rfl
  | cons token rest ih => exact ih

section Step

variable {innermost : Frame} {outer : List Frame} {token head : Token}

/-- An opening and a head start a group. -/
theorem step_opening_head (hhead : head ≠ .closing) :
    ((growing innermost outer false).step .opening).step head =
      growing ⟨head, []⟩ (innermost :: outer) false := by
  simp [step, hhead]

theorem step_leaf (hopening : token ≠ .opening) (hclosing : token ≠ .closing) :
    (growing innermost outer false).step token =
      growing (innermost.add (.node token [])) outer false := by
  cases token with
  | name text => rfl
  | lambda => rfl
  | opening => exact absurd rfl hopening
  | closing => exact absurd rfl hclosing

/-- The end of a group changes which nodes wait, and not the tree. -/
theorem tree_step_closing :
    ((growing innermost outer false).step .closing).tree = graft innermost.tree outer := by
  cases outer with
  | nil => rfl
  | cons frame outer => rfl

end Step

/-- **The machine follows the descent.** Where the children of a node are being read, the tokens
give the node just the children that the descent reads; then its group ends, and the machine goes on
with what the descent leaves. -/
theorem tree_foldl_step (tokens : List Token) (innermost : Frame) (outer : List Frame) :
    (tokens.foldl step (.growing innermost outer false)).tree =
      ((readChildren tokens).2.foldl step
        ((growing (innermost.append (readChildren tokens).1) outer false).step .closing)).tree := by
  induction tokens using readChildren_induction generalizing innermost outer with
  | nil =>
      -- The groups that are still open end with the tokens.
      rw [readChildren_nil, Frame.append_nil, List.foldl_nil, List.foldl_nil, tree_step_closing]
      rfl
  | closing rest => rw [readChildren_closing, Frame.append_nil, List.foldl_cons]
  | opening =>
      -- The group that the opening starts has no head yet, so the tree does not show it.
      rw [readChildren_opening, Frame.append_nil, List.foldl_nil, tree_step_closing]
      rfl
  | emptyGroup rest ih =>
      rw [readChildren_emptyGroup]
      exact ih innermost outer
  | group head rest hhead ihchildren ihfurther =>
      rw [List.foldl_cons, List.foldl_cons, step_opening_head hhead, ihchildren,
        readChildren_group hhead, Frame.append_cons]
      exact ihfurther (innermost.add (.node head (readChildren rest).1)) outer
  | leaf token rest hopening hclosing ih =>
      rw [List.foldl_cons, step_leaf hopening hclosing, ih, readChildren_leaf hopening hclosing,
        Frame.append_cons]

end Growth

namespace Arena

/-- **The arena built is the layout of the tree of the descent.** -/
theorem ofTokens_cons (first : Token) (rest : List Token) :
    ofTokens (first :: rest) = (Tree.node first (readChildren rest).1).toArena := by
  have hroot : (Growth.growing (Frame.append ⟨first, []⟩ (readChildren rest).1) [] false).step
      .closing = .complete (.node first (readChildren rest).1) := rfl
  rw [ofTokens_eq, Growth.start, Growth.tree_foldl_step, hroot, Growth.foldl_step_complete]
  rfl

theorem ofTokens_eq_empty_iff {tokens : List Token} : ofTokens tokens = empty ↔ tokens = [] := by
  cases tokens with
  | nil => exact iff_of_true rfl rfl
  | cons first rest =>
      refine iff_of_false (fun h => ?_) (List.cons_ne_nil first rest)
      rw [ofTokens_cons] at h
      exact Option.some_ne_none 0 (congrArg rootIndex? h)

/-! ### The tree that an arena stands for -/

/-- The tree below the node at an index, if following the children from there ends after fewer than
`height` steps and never leaves the arena. -/
def treeAt? (arena : Arena) (height index : Nat) : Option Tree :=
  match height with
  | 0 => none
  | height + 1 =>
    match arena.node? index with
    | none => none
    | some node => (node.children.toList.mapM (arena.treeAt? height)).map (Tree.node node.label)

/-- The tree below the root. No path in it has more nodes than the arena, so the size bounds the
height. -/
def tree? (arena : Arena) : Option Tree :=
  arena.rootIndex?.bind (arena.treeAt? arena.size)

mutual
theorem treeAt?_of_holds {arena : Arena} {height : Nat} (start : Nat) :
    ∀ tree : Tree, arena.Holds start (tree.layout start) → tree.size ≤ height →
      arena.treeAt? height start = some tree
  | .node label children, h, hheight => by
      obtain ⟨hroot, hchildren⟩ := h
      rw [Tree.size] at hheight
      cases height with
      | zero => omega
      | succ height =>
          have hchildrenHeight : Tree.sizes children ≤ height := by omega
          have hmap := mapM_treeAt?_of_holds (start + 1) children hchildren hchildrenHeight
          simp [treeAt?, hroot, hmap]

theorem mapM_treeAt?_of_holds {arena : Arena} {height : Nat} (start : Nat) :
    ∀ trees : List Tree, arena.Holds start (Tree.layouts start trees) →
      Tree.sizes trees ≤ height →
        (Tree.offsets start trees).mapM (arena.treeAt? height) = some trees
  | [], _, _ => rfl
  | tree :: trees, h, hheight => by
      obtain ⟨htree, htrees⟩ := holds_append.mp h
      rw [Tree.length_layout] at htrees
      rw [Tree.sizes] at hheight
      have htreeHeight : tree.size ≤ height := by omega
      have htreesHeight : Tree.sizes trees ≤ height := by omega
      have hfirst := treeAt?_of_holds start tree htree htreeHeight
      have hrest := mapM_treeAt?_of_holds (start + tree.size) trees htrees htreesHeight
      simp [Tree.offsets, hfirst, hrest]
end

end Arena

/-- **The arena of a tree stands for this tree.** -/
theorem Tree.tree?_toArena (tree : Tree) : tree.toArena.tree? = some tree := by
  have hnodes : tree.toArena.Holds 0 (tree.layout 0) := Arena.holds_nodes [] _ _
  have htree := Arena.treeAt?_of_holds 0 tree hnodes (Nat.le_refl _)
  rw [Arena.tree?, size_toArena]
  exact htree

/-- **The builder refines the recursive descent.** Whatever the tokens, the arena built stands for
the tree of the descent. Where it stands for none, it is the empty arena. -/
theorem Arena.tree?_ofTokens (tokens : List Token) :
    (ofTokens tokens).tree? = Tree.ofTokens? tokens ∧
      ((ofTokens tokens).tree? = none ↔ ofTokens tokens = .empty) := by
  rw [ofTokens_eq_empty_iff]
  cases tokens with
  | nil => exact ⟨rfl, iff_of_true rfl rfl⟩
  | cons first rest =>
      rw [ofTokens_cons, Tree.tree?_toArena]
      exact ⟨rfl, iff_of_false (Option.some_ne_none _) (List.cons_ne_nil first rest)⟩

end LambdaSyntax
