import LambdaSyntax.Arena.Basic

/-!
The nodes of a tree in pre-order.

A walk keeps the nodes that are still to be visited, each with its depth, in the order in which
their turns come. Visiting a node puts its children in front of the others. A walk visits each node
of a tree once, so the size of the arena bounds its length.
-/

namespace LambdaSyntax

/-- A node met on a walk, and its depth: the root has depth zero. -/
structure Visit where
  depth : Nat
  node : Node
deriving DecidableEq, Repr

/-- A walk through an arena: the depths and indices of the nodes that wait, the next one first. -/
structure Walk where
  pending : List (Nat × Nat)
deriving DecidableEq, Repr

namespace Walk

/-- The walk that has yet to visit the root. -/
def start (arena : Arena) : Walk :=
  ⟨arena.rootIndex?.toList.map fun index => (0, index)⟩

/-- The next visit, and the walk after it. -/
def next? (arena : Arena) (walk : Walk) : Option (Visit × Walk) :=
  match walk.pending with
  | [] => none
  | (depth, index) :: rest =>
    match arena.node? index with
    | none => none
    | some node =>
      some (⟨depth, node⟩,
        ⟨node.children.toList.map (fun child => (depth + 1, child)) ++ rest⟩)

/-- Adds the next visits, at most `bound` of them, to those in `visited`, the last one first. -/
def collect (arena : Arena) (bound : Nat) (walk : Walk) (visited : List Visit) : List Visit :=
  match bound with
  | 0 => visited
  | bound + 1 =>
    match walk.next? arena with
    | none => visited
    | some (visit, walk) => collect arena bound walk (visit :: visited)

/-- The next visits in order, at most `bound` of them. -/
def take (arena : Arena) (bound : Nat) (walk : Walk) : List Visit :=
  (collect arena bound walk []).reverse

theorem collect_eq_append (arena : Arena) (bound : Nat) (walk : Walk) (visited : List Visit) :
    collect arena bound walk visited = collect arena bound walk [] ++ visited := by
  induction bound generalizing walk visited with
  | zero => rfl
  | succ bound ih =>
    simp only [collect]
    cases walk.next? arena with
    | none => rfl
    | some found =>
      obtain ⟨visit, walk⟩ := found
      simp only
      rw [ih walk (visit :: visited), ih walk [visit]]
      simp

@[simp] theorem take_zero (arena : Arena) (walk : Walk) : take arena 0 walk = [] := rfl

/-- A walk gives its next visit first. -/
theorem take_succ {arena : Arena} {walk after : Walk} {visit : Visit}
    (h : walk.next? arena = some (visit, after)) (bound : Nat) :
    take arena (bound + 1) walk = visit :: take arena bound after := by
  simp only [take, collect, h]
  rw [collect_eq_append]
  simp

end Walk

/-- The nodes of a tree in pre-order, with their depths. -/
def Arena.visits (arena : Arena) : List Visit :=
  Walk.take arena arena.size (Walk.start arena)

/-!
### Measures

A tree too large to print is told by what is measured over its visits.
-/

/-- The depth of the deepest node; the empty tree has none. -/
def Arena.maxDepth? (arena : Arena) : Option Nat :=
  (arena.visits.map Visit.depth).max?

/-- The sum of the depths of all nodes. -/
def Arena.depthSum (arena : Arena) : Nat :=
  arena.visits.foldl (fun sum visit => sum + visit.depth) 0

/-- The number of nodes without children. -/
def Arena.leafCount (arena : Arena) : Nat :=
  arena.visits.countP fun visit => visit.node.children.isEmpty

end LambdaSyntax
