import LambdaSyntax.Token

/-!
Ordered trees in one array.

The nodes of a tree stand in one array, and a node refers to its children by their indices there.
A tree of any depth is then handled without recursion, and two trees are equal exactly when their
arrays and roots are.
-/

namespace LambdaSyntax

/-- A node: its label, and the indices of its children in order. -/
structure Node where
  label : Token
  children : Array Nat
deriving DecidableEq, Repr

/-- The nodes of a tree and the index of its root; the empty tree has no root. -/
structure Arena where
  nodes : Array Node
  rootIndex? : Option Nat
deriving DecidableEq, Repr

namespace Arena

/-- The empty tree. -/
def empty : Arena := ⟨#[], none⟩

/-- The number of nodes. -/
def size (arena : Arena) : Nat := arena.nodes.size

/-- Whether a tree has no root. -/
def isEmpty (arena : Arena) : Bool := arena.rootIndex?.isNone

/-- The node at an index, if there is one. -/
def node? (arena : Arena) (index : Nat) : Option Node := arena.nodes[index]?

/-- The root, if there is one. -/
def root? (arena : Arena) : Option Node := arena.rootIndex?.bind arena.node?

/-- The children of the node at an index, in order. There is no answer outside the arena. -/
def children? (arena : Arena) (index : Nat) : Option (List Node) :=
  (arena.node? index).bind fun node => node.children.toList.mapM arena.node?

/-- Adds a node without children. Its index is the size of the arena before. -/
def push (arena : Arena) (label : Token) : Arena :=
  { arena with nodes := arena.nodes.push ⟨label, #[]⟩ }

/-- Makes the node at `child` the last child of the node at `parent`. -/
def addChild (arena : Arena) (parent child : Nat) : Arena :=
  { arena with
    nodes := arena.nodes.modify parent fun node =>
      { node with children := node.children.push child } }

/-- Adds a node without children as the last child of the node at `parent`. -/
def attach (arena : Arena) (parent : Nat) (label : Token) : Arena :=
  let child := arena.size
  (arena.push label).addChild parent child

end Arena

end LambdaSyntax
