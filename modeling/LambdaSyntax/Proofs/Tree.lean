import LambdaSyntax.Arena.Traversal

/-!
Ordered trees, and how an arena holds one.

`Tree` is the ordinary notion: a node has a label and a list of trees as its children.
`Tree.layout` writes the nodes of a tree one after the other in pre-order, so that the first child
of a node stands directly behind it and every other child behind the whole of the one before.
`Tree.toArena` is the arena that holds just these nodes.

A walk through an arena knows nothing of this order. That it meets the nodes of a tree in the order
in which they stand is proved for any part of an arena that holds a tree, with anything waiting
behind it (`Walk.take_tree`), by induction on the tree.

* `Tree.visits_toArena`: the walk from the root gives the recursive pre-order traversal.
* `Tree.nodes_visits_toArena`: it meets the nodes in the order of the arena, each once.
-/

namespace LambdaSyntax

/-- An ordered tree with a token at each node. -/
inductive Tree where
  | node (label : Token) (children : List Tree)

namespace Tree

mutual
/-- The number of nodes of a tree. -/
def size : Tree → Nat
  | .node _ children => sizes children + 1

/-- The number of nodes of some trees together. -/
def sizes : List Tree → Nat
  | [] => 0
  | tree :: rest => tree.size + sizes rest
end

/-- Where trees begin that stand one after the other from `start` on. -/
def offsets (start : Nat) : List Tree → List Nat
  | [] => []
  | tree :: rest => start :: offsets (start + tree.size) rest

mutual
/-- The nodes of a tree in pre-order, the first of which has the index `start`. -/
def layout (start : Nat) : Tree → List Node
  | .node label children =>
    ⟨label, (offsets (start + 1) children).toArray⟩ :: layouts (start + 1) children

/-- The nodes of trees that stand one after the other. -/
def layouts (start : Nat) : List Tree → List Node
  | [] => []
  | tree :: rest => tree.layout start ++ layouts (start + tree.size) rest
end

/-- The arena of a tree. -/
def toArena (tree : Tree) : Arena :=
  ⟨(tree.layout 0).toArray, some 0⟩

mutual
/-- The recursive pre-order traversal of a tree whose root has the index `start`. -/
def visitsFrom (depth start : Nat) : Tree → List Visit
  | .node label children =>
    ⟨depth, label, (offsets (start + 1) children).toArray⟩ ::
      visitsFromAll (depth + 1) (start + 1) children

/-- The traversals of trees that stand one after the other. -/
def visitsFromAll (depth start : Nat) : List Tree → List Visit
  | [] => []
  | tree :: rest => tree.visitsFrom depth start ++ visitsFromAll depth (start + tree.size) rest
end

/-! ### Parts of a layout -/

mutual
@[simp] theorem length_layout (start : Nat) : ∀ tree : Tree, (tree.layout start).length = tree.size
  | .node label children => by simp [layout, size, length_layouts (start + 1) children]

@[simp] theorem length_layouts (start : Nat) :
    ∀ trees : List Tree, (layouts start trees).length = sizes trees
  | [] => rfl
  | tree :: rest => by
      simp [layouts, sizes, length_layout start tree, length_layouts (start + tree.size) rest]
end

theorem offsets_append (start : Nat) (first second : List Tree) :
    offsets start (first ++ second) =
      offsets start first ++ offsets (start + sizes first) second := by
  induction first generalizing start with
  | nil => simp [offsets, sizes]
  | cons tree rest ih => simp [offsets, sizes, ih, Nat.add_assoc]

theorem layouts_append (start : Nat) (first second : List Tree) :
    layouts start (first ++ second) =
      layouts start first ++ layouts (start + sizes first) second := by
  induction first generalizing start with
  | nil => simp [layouts, sizes]
  | cons tree rest ih => simp [layouts, sizes, ih, Nat.add_assoc]

@[simp] theorem size_toArena (tree : Tree) : tree.toArena.size = tree.size := by
  simp [toArena, Arena.size]

end Tree

/-! ### Parts of an arena -/

namespace Arena

/-- The arena has these nodes one after the other, the first of them at `start`. -/
def Holds (arena : Arena) (start : Nat) : List Node → Prop
  | [] => True
  | node :: rest => arena.node? start = some node ∧ arena.Holds (start + 1) rest

theorem holds_append {arena : Arena} {start : Nat} {first second : List Node} :
    arena.Holds start (first ++ second) ↔
      arena.Holds start first ∧ arena.Holds (start + first.length) second := by
  induction first generalizing start with
  | nil => simp [Holds]
  | cons node rest ih =>
      have hlength : start + (node :: rest).length = start + 1 + rest.length := by
        simp only [List.length_cons]
        omega
      rw [hlength]
      simp [Holds, ih, and_assoc]

/-- An arena has all its nodes. -/
theorem holds_nodes (before nodes : List Node) (rootIndex? : Option Nat) :
    Holds ⟨(before ++ nodes).toArray, rootIndex?⟩ before.length nodes := by
  induction nodes generalizing before with
  | nil => trivial
  | cons node rest ih =>
      refine ⟨by simp [node?], ?_⟩
      have hrest := ih (before ++ [node])
      rw [List.length_append, List.append_assoc] at hrest
      exact hrest

end Arena

/-! ### Walks -/

namespace Walk

open LambdaSyntax.Tree

theorem next?_cons {arena : Arena} {depth index : Nat} {node : Node} {rest : List (Nat × Nat)}
    (h : arena.node? index = some node) :
    next? arena ⟨(depth, index) :: rest⟩ =
      some (⟨depth, node⟩,
        ⟨node.children.toList.map (fun child => (depth + 1, child)) ++ rest⟩) := by
  simp [next?, h]

mutual
/-- **A walk visits a tree recursively.** Whatever waits behind the root of a tree waits until the
whole tree is visited, and the walk then goes on with it. -/
theorem take_tree {arena : Arena} (bound depth start : Nat) (rest : List (Nat × Nat)) :
    ∀ tree : Tree, arena.Holds start (tree.layout start) →
      take arena (tree.size + bound) ⟨(depth, start) :: rest⟩ =
        tree.visitsFrom depth start ++ take arena bound ⟨rest⟩
  | .node label children, h => by
      obtain ⟨hroot, hchildren⟩ := h
      have hbound : (Tree.node label children).size + bound = (sizes children + bound) + 1 := by
        rw [size]
        omega
      rw [hbound, take_succ (next?_cons hroot),
        take_trees bound (depth + 1) (start + 1) rest children hchildren]
      rfl

theorem take_trees {arena : Arena} (bound depth start : Nat) (rest : List (Nat × Nat)) :
    ∀ trees : List Tree, arena.Holds start (layouts start trees) →
      take arena (sizes trees + bound)
          ⟨(offsets start trees).map (fun index => (depth, index)) ++ rest⟩ =
        visitsFromAll depth start trees ++ take arena bound ⟨rest⟩
  | [], _ => by simp [sizes, offsets, visitsFromAll]
  | tree :: trees, h => by
      obtain ⟨htree, htrees⟩ := Arena.holds_append.mp h
      rw [length_layout] at htrees
      rw [sizes, Nat.add_assoc, offsets, List.map_cons, List.cons_append,
        take_tree (sizes trees + bound) depth start _ tree htree,
        take_trees bound depth (start + tree.size) rest trees htrees, visitsFromAll,
        List.append_assoc]
end

end Walk

namespace Tree

/-- **The walk from the root is the recursive traversal.** -/
theorem visits_toArena (tree : Tree) : tree.toArena.visits = tree.visitsFrom 0 0 := by
  have hnodes : tree.toArena.Holds 0 (tree.layout 0) := Arena.holds_nodes [] _ _
  have htake := Walk.take_tree 0 0 0 [] tree hnodes
  rw [Nat.add_zero, Walk.take_zero, List.append_nil] at htake
  rw [Arena.visits, size_toArena]
  exact htake

mutual
theorem nodes_visitsFrom (depth start : Nat) :
    ∀ tree : Tree, (tree.visitsFrom depth start).map Visit.node = tree.layout start
  | .node label children => by
      simp [visitsFrom, layout, nodes_visitsFromAll (depth + 1) (start + 1) children]

theorem nodes_visitsFromAll (depth start : Nat) :
    ∀ trees : List Tree, (visitsFromAll depth start trees).map Visit.node = layouts start trees
  | [] => rfl
  | tree :: rest => by
      simp [visitsFromAll, layouts, nodes_visitsFrom depth start tree,
        nodes_visitsFromAll depth (start + tree.size) rest]
end

/-- The nodes come in the order in which the arena has them. -/
theorem nodes_visits_toArena (tree : Tree) :
    tree.toArena.visits.map Visit.node = tree.toArena.nodes.toList := by
  rw [visits_toArena, nodes_visitsFrom, toArena]

end Tree

end LambdaSyntax
