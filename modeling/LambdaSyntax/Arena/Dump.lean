import LambdaSyntax.Arena.Traversal

/-!
The printed form of a tree: one line for each node in pre-order, the literal text of its label
behind two spaces for each level of depth.
-/

namespace LambdaSyntax

/-- The line of one node, with its newline. -/
def Visit.line (visit : Visit) : String :=
  String.ofList (List.replicate (2 * visit.depth) ' ') ++ visit.node.label.text ++ "\n"

/-- The printed form of a tree. The empty tree has an empty one. -/
def Arena.dump (arena : Arena) : String :=
  String.join (arena.visits.map Visit.line)

end LambdaSyntax
