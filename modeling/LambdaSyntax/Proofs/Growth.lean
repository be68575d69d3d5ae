import LambdaSyntax.Arena.Builder
import LambdaSyntax.Proofs.Tree

/-!
The builder as a machine on trees.

`Growth` is what the builder stands for between two tokens: a node whose children are being read,
and around it the nodes that still wait for it to be complete, each with the children it has. Its
steps put trees together and mention no indices. `Growth.builder` is the builder in that state: its
arena is that of the tree grown so far, and its open nodes are where the layout of that tree has the
nodes that wait (`positions`).

* `attach_graft`: adding a childless node to the arena adds it to the innermost open node.
* `Growth.builder_step`, `Growth.builder_run`: the builder follows the machine, over any tokens.
* `Arena.ofTokens_eq`: the arena built is that of the tree grown, so the walk through it meets the
  nodes in the order in which they were made (`Arena.nodes_visits_ofTokens`).
-/

namespace LambdaSyntax

/-- A node whose children are still being read. -/
structure Frame where
  label : Token
  children : List Tree

namespace Frame

/-- The node with the children it has so far. -/
def tree (frame : Frame) : Tree := .node frame.label frame.children

/-- The node with one more child. -/
def add (frame : Frame) (child : Tree) : Frame := ⟨frame.label, frame.children ++ [child]⟩

end Frame

/-- The tree of a node and of the nodes around it, the innermost first: each is the last child so
far of the next. -/
def graft (tree : Tree) : List Frame → Tree
  | [] => tree
  | frame :: outer => graft (frame.add tree).tree outer

/-- A tree that grows with each token. -/
inductive Growth where
  /-- Children of `innermost` are being read, which is itself to be a child of the first of
  `outer`. -/
  | growing (innermost : Frame) (outer : List Frame) (awaitingHead : Bool)
  /-- The root has all its children. -/
  | complete (tree : Tree)

namespace Growth

/-- The tree of one token. -/
def start (label : Token) : Growth := .growing ⟨label, []⟩ [] false

/-- Grows with one more token. -/
def step : Growth → Token → Growth
  | .complete tree, _ => .complete tree
  | .growing innermost outer true, token =>
    if token = .closing then .growing innermost outer false
    else .growing ⟨token, []⟩ (innermost :: outer) false
  | .growing innermost outer false, token =>
    match token with
    | .opening => .growing innermost outer true
    | .closing =>
      match outer with
      | [] => .complete innermost.tree
      | frame :: outer => .growing (frame.add innermost.tree) outer false
    | leaf => .growing (innermost.add (.node leaf [])) outer false

/-- The tree grown so far. -/
def tree : Growth → Tree
  | .growing innermost outer _ => graft innermost.tree outer
  | .complete tree => tree

end Growth

/-! ### Where the nodes that wait lie -/

/-- The number of nodes that nodes with their children have together. -/
def extent : List Frame → Nat
  | [] => 0
  | frame :: outer => extent outer + frame.tree.size

/-- The indices of nodes with their children around one another, the innermost first. -/
def positions : List Frame → List Nat
  | [] => []
  | _ :: outer => extent outer :: positions outer

open LambdaSyntax.Tree

/-- The nodes of the trees around a node that is still to follow. It comes last, so all these nodes
stand before it. -/
def laid : List Frame → List Node
  | [] => []
  | frame :: outer =>
    laid outer ++
      ⟨frame.label, (offsets (extent outer + 1) frame.children ++
        [extent (frame :: outer)]).toArray⟩ :: layouts (extent outer + 1) frame.children

theorem length_laid (frames : List Frame) : (laid frames).length = extent frames := by
  induction frames with
  | nil => rfl
  | cons frame outer ih =>
      simp only [laid, List.length_append, ih, List.length_cons, length_layouts, extent, Frame.tree,
        size]

/-- **The layout of a graft**: first the nodes around, then the tree that was grafted. -/
theorem layout_graft (tree : Tree) (outer : List Frame) :
    (graft tree outer).layout 0 = laid outer ++ tree.layout (extent outer) := by
  induction outer generalizing tree with
  | nil => rfl
  | cons frame outer ih =>
      have hend : extent outer + 1 + sizes frame.children = extent (frame :: outer) := by
        simp only [extent, Frame.tree, size]
        omega
      rw [graft, ih, laid, Frame.add, Frame.tree, layout, offsets_append, layouts_append, hend]
      simp [offsets, layouts]

/-! ### The builder follows the machine -/

/-- The node that follows some others is changed in its place. -/
theorem modify_behind {α : Type} (before behind : List α) (x : α) (f : α → α) :
    (before ++ x :: behind).modify before.length f = before ++ f x :: behind := by
  induction before with
  | nil => rfl
  | cons y before ih => simp [ih]

theorem size_graft (tree : Tree) (outer : List Frame) :
    (graft tree outer).size = extent outer + tree.size := by
  rw [← length_layout 0, layout_graft, List.length_append, length_laid, length_layout]

/-- **Adding a node to the arena adds it to the innermost open node.** -/
theorem attach_graft (innermost : Frame) (outer : List Frame) (label : Token) :
    (graft innermost.tree outer).toArena.attach (extent outer) label =
      (graft (innermost.add (.node label [])).tree outer).toArena := by
  have hsize : (graft innermost.tree outer).toArena.size =
      extent outer + 1 + sizes innermost.children := by
    rw [size_toArena, size_graft, Frame.tree, size]
    omega
  rw [Arena.attach, hsize]
  simp only [Arena.push, Arena.addChild, toArena, layout_graft, List.push_toArray,
    List.modify_toArray, Frame.tree, Frame.add, layout, offsets_append, layouts_append,
    List.append_assoc, List.cons_append, ← length_laid outer, modify_behind]
  simp [offsets, layouts, layout]

namespace Growth

/-- The builder that stands for a tree grown so far. -/
def builder : Growth → Builder
  | .growing innermost outer awaitingHead =>
    ⟨(graft innermost.tree outer).toArena, positions (innermost :: outer), awaitingHead⟩
  | .complete tree => ⟨tree.toArena, [], false⟩

theorem builder_start (label : Token) : (start label).builder = Builder.start label := rfl

/-- **Each step of the builder is one of the machine.** -/
theorem builder_step (growth : Growth) (token : Token) :
    growth.builder.step token = (growth.step token).builder := by
  cases growth with
  | complete tree => rfl
  | growing innermost outer awaitingHead =>
      cases awaitingHead with
      | true =>
          by_cases hclosing : token = .closing
          · simp [builder, positions, Builder.step, step, hclosing]
          · have hsize : (graft innermost.tree outer).toArena.size =
                extent (innermost :: outer) := by
              rw [size_toArena, size_graft, extent]
            simp only [builder, positions, Builder.step, step, hclosing, ↓reduceIte, attach_graft,
              hsize]
            rfl
      | false =>
          cases token with
          | opening => rfl
          | closing =>
              cases outer with
              | nil => rfl
              | cons frame outer => rfl
          | name text => simp only [builder, positions, Builder.step, step, attach_graft]
          | lambda => simp only [builder, positions, Builder.step, step, attach_graft]

theorem builder_run (growth : Growth) (tokens : List Token) :
    tokens.foldl Builder.step growth.builder = (tokens.foldl step growth).builder := by
  induction tokens generalizing growth with
  | nil => rfl
  | cons token rest ih => rw [List.foldl_cons, builder_step, ih, List.foldl_cons]

theorem arena_builder (growth : Growth) : growth.builder.arena = growth.tree.toArena := by
  cases growth with
  | growing innermost outer awaitingHead => rfl
  | complete tree => rfl

end Growth

namespace Arena

/-- The tree that a token sequence grows into. -/
theorem ofTokens_eq (first : Token) (rest : List Token) :
    ofTokens (first :: rest) = (rest.foldl Growth.step (.start first)).tree.toArena := by
  rw [ofTokens, Builder.run, ← Growth.builder_start, Growth.builder_run, Growth.arena_builder]

/-- **The walk through an arena built meets the nodes in the order in which they were made.** -/
theorem nodes_visits_ofTokens (tokens : List Token) :
    (ofTokens tokens).visits.map Visit.node = (ofTokens tokens).nodes.toList := by
  cases tokens with
  | nil => rfl
  | cons first rest =>
      rw [ofTokens_eq]
      exact nodes_visits_toArena _

theorem length_visits_ofTokens (tokens : List Token) :
    (ofTokens tokens).visits.length = (ofTokens tokens).size := by
  rw [← List.length_map Visit.node, nodes_visits_ofTokens]
  simp [size]

end Arena

end LambdaSyntax
