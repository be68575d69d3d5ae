import Mathlib.Data.List.Nodup
import LambdaSyntax.Proofs.Descent

/-!
Which node an index belongs to.

The arena of a tree holds every index but the root's exactly once, in the list of children of one
node that stands before it. `Tree.cons_childIndices_perm` says this of all the lists together: with
the root's index in front, they are the indices of the arena in another order. What holds of each
list by itself, that its indices increase and stand behind their parent, is `Tree.children_layout`.

In an arena all of whose indices are those of its nodes, no access by an index can leave it. For a
walk this takes an invariant, since a walk comes to indices that it has read from nodes
(`Walk.Reached.inside`). For the builder it is read off the machine on trees, which says where in
the layout the nodes are whose groups are open (`Builder.openNodes_lt_size`).

* `Tree.orderedTree_toArena`: the arena of a tree is an ordered tree.
* `Arena.Closed.accessesInside`: where all indices are those of nodes, no access leaves the arena.
* `Arena.orderedTree_ofTokens`: both hold of the arena built, whatever the tokens.
-/

namespace LambdaSyntax

/-! ### Ordered trees in an arena -/

namespace Arena

/-- The node at `parent` has the one at `child` among its children. -/
def HasChild (arena : Arena) (parent child : Nat) : Prop :=
  ∃ node, arena.node? parent = some node ∧ child ∈ node.children

/-- The nodes of an arena are those of one ordered tree, in an order in which parents come before
their children, and children in the order in which their parent has them. -/
structure OrderedTree (arena : Arena) : Prop where
  root_eq_zero : arena.rootIndex? = some 0
  child_lt_size : ∀ {parent child}, arena.HasChild parent child → child < arena.size
  existsUnique_parent : ∀ child, child ≠ 0 → child < arena.size →
    ∃! parent, arena.HasChild parent child
  /-- A parent names each of its children once. -/
  count_child : ∀ {parent node child}, arena.node? parent = some node → child ∈ node.children →
    node.children.count child = 1
  root_not_child : ∀ parent, ¬ arena.HasChild parent 0
  parent_lt_child : ∀ {parent child}, arena.HasChild parent child → parent < child
  children_increase : ∀ {index node}, arena.node? index = some node →
    node.children.toList.Pairwise (· < ·)

end Arena

/-- The walks that a traversal from the root comes to. -/
inductive Walk.Reached (arena : Arena) : Walk → Prop where
  | start : Reached arena (Walk.start arena)
  | next {walk after : Walk} {visit : Visit} : Reached arena walk →
      walk.next? arena = some (visit, after) → Reached arena after

/-- Every index that waits on a walk is that of a node. -/
def Walk.Inside (arena : Arena) (walk : Walk) : Prop :=
  ∀ depth index, (depth, index) ∈ walk.pending → ∃ node, arena.node? index = some node

/-- Every index that is followed in an arena is that of a node: the root's, those of the children of
a node, and those that wait on a walk from the root. -/
structure Arena.AccessesInside (arena : Arena) : Prop where
  root : ∀ index, arena.rootIndex? = some index → ∃ node, arena.node? index = some node
  children : ∀ index, index < arena.size → ∃ nodes, arena.children? index = some nodes
  walk : ∀ walk, Walk.Reached arena walk → walk.Inside arena

/-! ### The links of a layout -/

/-- The indices of the children of all nodes, one node after the other. -/
def Arena.childIndices (nodes : List Node) : List Nat :=
  nodes.flatMap fun node => node.children.toList

namespace Tree

theorem le_of_mem_offsets {start index : Nat} {trees : List Tree}
    (h : index ∈ offsets start trees) : start ≤ index := by
  induction trees generalizing start with
  | nil => simp [offsets] at h
  | cons tree rest ih =>
      rcases List.mem_cons.mp h with rfl | hrest
      · exact Nat.le_refl _
      · have := ih hrest
        omega

theorem size_pos (tree : Tree) : 0 < tree.size := by
  cases tree with
  | node label children => exact Nat.succ_pos _

theorem pairwise_offsets (start : Nat) (trees : List Tree) :
    (offsets start trees).Pairwise (· < ·) := by
  induction trees generalizing start with
  | nil => exact List.Pairwise.nil
  | cons tree rest ih =>
      refine List.Pairwise.cons (fun index hindex => ?_) (ih (start + tree.size))
      have hle := le_of_mem_offsets hindex
      have hpos := tree.size_pos
      omega

mutual
/-- **What a node of a layout names**: nodes behind it, in increasing order. -/
theorem children_layout (start : Nat) : ∀ (tree : Tree) (i : Nat) (found : Node),
    (tree.layout start)[i]? = some found →
      (∀ child ∈ found.children, start + i < child) ∧ found.children.toList.Pairwise (· < ·)
  | .node label children, 0, found, h => by
      obtain rfl : ⟨label, (offsets (start + 1) children).toArray⟩ = found := Option.some.inj h
      refine ⟨fun child hchild => ?_, pairwise_offsets (start + 1) children⟩
      exact le_of_mem_offsets (List.mem_toArray.mp hchild)
  | .node label children, i + 1, found, h => by
      have hfound := children_layouts (start + 1) children i found h
      rwa [Nat.add_right_comm] at hfound

theorem children_layouts (start : Nat) : ∀ (trees : List Tree) (i : Nat) (found : Node),
    (layouts start trees)[i]? = some found →
      (∀ child ∈ found.children, start + i < child) ∧ found.children.toList.Pairwise (· < ·)
  | [], i, found, h => by simp [layouts] at h
  | tree :: rest, i, found, h => by
      rw [layouts, List.getElem?_append, length_layout] at h
      split at h
      · exact children_layout start tree i found h
      · have hfound := children_layouts (start + tree.size) rest (i - tree.size) found h
        have hindex : start + tree.size + (i - tree.size) = start + i := by omega
        rwa [hindex] at hfound
end

open Arena (childIndices)
open scoped List

mutual
/-- **All children of a layout**: with its first index, each index of the layout once. -/
theorem cons_childIndices_perm (start : Nat) : ∀ tree : Tree,
    start :: childIndices (tree.layout start) ~ List.range' start tree.size
  | .node label children => by
      rw [size, List.range'_succ]
      exact (offsets_append_childIndices_perm (start + 1) children).cons start

theorem offsets_append_childIndices_perm (start : Nat) : ∀ trees : List Tree,
    offsets start trees ++ childIndices (layouts start trees) ~ List.range' start (sizes trees)
  | [] => List.Perm.refl []
  | tree :: rest => by
      have htree := cons_childIndices_perm start tree
      have hrest := offsets_append_childIndices_perm (start + tree.size) rest
      calc offsets start (tree :: rest) ++ childIndices (layouts start (tree :: rest))
        _ = start :: (offsets (start + tree.size) rest ++ (childIndices (tree.layout start) ++
              childIndices (layouts (start + tree.size) rest))) := by
            simp [offsets, layouts, childIndices]
        _ ~ start :: (childIndices (tree.layout start) ++ (offsets (start + tree.size) rest ++
              childIndices (layouts (start + tree.size) rest))) := by
            -- What the first tree names comes before the places of the others.
            simp only [← List.append_assoc]
            exact (List.perm_append_comm.append_right _).cons start
        _ ~ List.range' start tree.size ++ List.range' (start + tree.size) (sizes rest) :=
            htree.append hrest
        _ = List.range' start (sizes (tree :: rest)) := by
            rw [List.range'_append_1, sizes]
end

end Tree

/-! ### The arena of a tree -/

namespace Arena

variable {arena : Arena}

theorem node?_eq_getElem?_toList (arena : Arena) (index : Nat) :
    arena.node? index = arena.nodes.toList[index]? := by
  rw [node?, Array.getElem?_toList]

theorem mem_nodes_of_node? {index : Nat} {node : Node} (h : arena.node? index = some node) :
    node ∈ arena.nodes.toList := by
  rw [node?_eq_getElem?_toList] at h
  exact List.mem_of_getElem? h

theorem exists_node?_iff {index : Nat} :
    (∃ node, arena.node? index = some node) ↔ index < arena.size := by
  constructor
  · rintro ⟨node, hnode⟩
    exact (Array.getElem?_eq_some_iff.mp hnode).1
  · intro hindex
    exact ⟨_, Array.getElem?_eq_getElem hindex⟩

theorem mem_childIndices_iff {child : Nat} :
    child ∈ childIndices arena.nodes.toList ↔ ∃ parent, arena.HasChild parent child := by
  rw [childIndices, List.mem_flatMap]
  constructor
  · rintro ⟨node, hnode, hchild⟩
    obtain ⟨parent, hparent⟩ := List.mem_iff_getElem?.mp hnode
    rw [← node?_eq_getElem?_toList] at hparent
    exact ⟨parent, node, hparent, Array.mem_toList_iff.mp hchild⟩
  · rintro ⟨parent, node, hparent, hchild⟩
    exact ⟨node, mem_nodes_of_node? hparent, Array.mem_toList_iff.mpr hchild⟩

section Nodup

variable (hnodup : (childIndices arena.nodes.toList).Nodup)
include hnodup

theorem not_hasChild_of_lt {parent other child : Nat} (hlt : parent < other)
    (hparent : arena.HasChild parent child) : ¬ arena.HasChild other child := by
  rintro ⟨second, hsecond, hchildSecond⟩
  obtain ⟨first, hfirst, hchildFirst⟩ := hparent
  have hdisjoint := List.pairwise_iff_getElem.mp (List.nodup_flatMap.mp hnodup).2
  obtain ⟨hparentLt, rfl⟩ := Array.getElem?_eq_some_iff.mp hfirst
  obtain ⟨hotherLt, rfl⟩ := Array.getElem?_eq_some_iff.mp hsecond
  exact hdisjoint parent other hparentLt hotherLt hlt
    (Array.mem_toList_iff.mpr hchildFirst) (Array.mem_toList_iff.mpr hchildSecond)

/-- Where no index is held twice, a node has one parent at most. -/
theorem HasChild.parent_unique {parent other child : Nat} (hparent : arena.HasChild parent child)
    (hother : arena.HasChild other child) : parent = other := by
  rcases Nat.lt_trichotomy parent other with hlt | heq | hgt
  · exact absurd hother (not_hasChild_of_lt hnodup hlt hparent)
  · exact heq
  · exact absurd hparent (not_hasChild_of_lt hnodup hgt hother)

theorem count_children_of_nodup {parent child : Nat} {node : Node}
    (hparent : arena.node? parent = some node) (hchild : child ∈ node.children) :
    node.children.count child = 1 := by
  have hchildren := (List.nodup_flatMap.mp hnodup).1 node (mem_nodes_of_node? hparent)
  rw [← Array.count_toList]
  exact List.count_eq_one_of_mem hchildren (Array.mem_toList_iff.mpr hchild)

end Nodup

end Arena

namespace Tree

/-- What the nodes of the arena of a tree name, all together: with the root's index in front, every
index once. -/
theorem cons_childIndices_toArena_perm (tree : Tree) :
    (0 :: Arena.childIndices tree.toArena.nodes.toList).Perm (List.range tree.toArena.size) := by
  rw [size_toArena, List.range_eq_range']
  exact cons_childIndices_perm 0 tree

theorem children_toArena (tree : Tree) {index : Nat} {found : Node}
    (hfound : tree.toArena.node? index = some found) :
    (∀ child ∈ found.children, index < child) ∧ found.children.toList.Pairwise (· < ·) := by
  rw [Arena.node?_eq_getElem?_toList] at hfound
  simpa using children_layout 0 tree index found hfound

/-- **The arena of a tree is an ordered tree.** -/
theorem orderedTree_toArena (tree : Tree) : tree.toArena.OrderedTree := by
  have hperm := tree.cons_childIndices_toArena_perm
  obtain ⟨hroot, hnodup⟩ := List.nodup_cons.mp (hperm.nodup_iff.mpr List.nodup_range)
  refine ⟨rfl, ?lt_size, ?existsUnique, Arena.count_children_of_nodup hnodup, ?root, ?parent_lt,
    fun hfound => (tree.children_toArena hfound).2⟩
  case lt_size =>
    intro parent child h
    have hmem := List.mem_cons_of_mem 0 (Arena.mem_childIndices_iff.mpr ⟨parent, h⟩)
    exact List.mem_range.mp (hperm.subset hmem)
  case existsUnique =>
    intro child hchild hsize
    rcases List.mem_cons.mp (hperm.symm.subset (List.mem_range.mpr hsize)) with hzero | hmem
    · exact absurd hzero hchild
    · obtain ⟨parent, hparent⟩ := Arena.mem_childIndices_iff.mp hmem
      exact ⟨parent, hparent, fun other hother => hother.parent_unique hnodup hparent⟩
  case root =>
    intro parent h
    exact hroot (Arena.mem_childIndices_iff.mpr ⟨parent, h⟩)
  case parent_lt =>
    rintro parent child ⟨found, hfound, hchild⟩
    exact (tree.children_toArena hfound).1 child hchild

end Tree

/-! ### Accesses -/

/-- Every index that an arena holds is that of one of its nodes. -/
structure Arena.Closed (arena : Arena) : Prop where
  root_lt_size : ∀ index, arena.rootIndex? = some index → index < arena.size
  child_lt_size : ∀ {parent child}, arena.HasChild parent child → child < arena.size

namespace Walk

variable {arena : Arena}

theorem inside_start (h : arena.Closed) : (start arena).Inside arena := by
  intro depth index hmem
  obtain ⟨_, hroot, heq⟩ := List.mem_map.mp hmem
  cases heq
  exact Arena.exists_node?_iff.mpr (h.root_lt_size index (Option.mem_toList.mp hroot))

/-- One visit keeps a walk inside: what it adds are the children of a node. -/
theorem Inside.next (h : arena.Closed) {walk after : Walk} {visit : Visit}
    (hwalk : walk.Inside arena) (hnext : walk.next? arena = some (visit, after)) :
    after.Inside arena := by
  obtain ⟨pending⟩ := walk
  cases pending with
  | nil => simp [next?] at hnext
  | cons turn rest =>
      obtain ⟨depth, index⟩ := turn
      obtain ⟨node, hnode⟩ := hwalk depth index List.mem_cons_self
      rw [next?_cons hnode] at hnext
      simp only [Option.some.injEq, Prod.mk.injEq] at hnext
      obtain ⟨-, rfl⟩ := hnext
      intro depth' child hmem
      rcases List.mem_append.mp hmem with hchild | hrest
      · obtain ⟨_, hchild, heq⟩ := List.mem_map.mp hchild
        cases heq
        have hlt := h.child_lt_size ⟨node, hnode, Array.mem_toList_iff.mp hchild⟩
        exact Arena.exists_node?_iff.mpr hlt
      · exact hwalk depth' child (List.mem_cons_of_mem _ hrest)

/-- **No walk from the root leaves the arena.** -/
theorem Reached.inside (h : arena.Closed) {walk : Walk} (hwalk : Reached arena walk) :
    walk.Inside arena := by
  induction hwalk with
  | start => exact inside_start h
  | next _ hnext ih => exact ih.next h hnext

end Walk

namespace Arena

variable {arena : Arena}

theorem exists_mapM_node? (indices : List Nat) (h : ∀ index ∈ indices, index < arena.size) :
    ∃ nodes, indices.mapM arena.node? = some nodes := by
  induction indices with
  | nil => exact ⟨[], rfl⟩
  | cons index rest ih =>
      obtain ⟨node, hnode⟩ := exists_node?_iff.mpr (h index List.mem_cons_self)
      obtain ⟨nodes, hnodes⟩ := ih fun index hmem => h index (List.mem_cons_of_mem _ hmem)
      exact ⟨node :: nodes, by simp [hnode, hnodes]⟩

theorem Closed.exists_children (h : arena.Closed) {index : Nat} (hindex : index < arena.size) :
    ∃ nodes, arena.children? index = some nodes := by
  obtain ⟨node, hnode⟩ := exists_node?_iff.mpr hindex
  rw [children?, hnode, Option.bind_some]
  refine exists_mapM_node? _ fun child hchild => ?_
  exact h.child_lt_size ⟨node, hnode, Array.mem_toList_iff.mp hchild⟩

/-- **In a closed arena no access leaves it.** -/
theorem Closed.accessesInside (h : arena.Closed) : arena.AccessesInside where
  root := fun index hindex => exists_node?_iff.mpr (h.root_lt_size index hindex)
  children := fun _ hindex => h.exists_children hindex
  walk := fun _ hwalk => hwalk.inside h

theorem closed_empty : empty.Closed := by
  constructor
  · intro index hindex
    cases hindex
  · rintro parent child ⟨node, hnode, -⟩
    simp [empty, node?] at hnode

end Arena

theorem Tree.closed_toArena (tree : Tree) : tree.toArena.Closed where
  root_lt_size := by
    intro index hindex
    obtain rfl : 0 = index := Option.some.inj hindex
    rw [size_toArena]
    exact tree.size_pos
  child_lt_size := tree.orderedTree_toArena.child_lt_size

/-! ### The arena built -/

theorem lt_extent_of_mem_positions {index : Nat} {frames : List Frame}
    (h : index ∈ positions frames) : index < extent frames := by
  induction frames with
  | nil => simp [positions] at h
  | cons frame outer ih =>
      have hpos := frame.tree.size_pos
      rw [extent]
      rcases List.mem_cons.mp h with rfl | houter
      · omega
      · have := ih houter
        omega

/-- **The nodes whose groups are open are in the arena**, after any tokens. -/
theorem Builder.openNodes_lt_size (first : Token) (rest : List Token) :
    ∀ index ∈ (run first rest).openNodes, index < (run first rest).arena.size := by
  rw [run, ← Growth.builder_start, Growth.builder_run]
  cases rest.foldl Growth.step (.start first) with
  | growing innermost outer awaitingHead =>
      intro index hindex
      rw [Growth.arena_builder, Growth.tree, Tree.size_toArena, size_graft]
      exact lt_extent_of_mem_positions hindex
  | complete tree => simp [Growth.builder]

namespace Arena

theorem closed_ofTokens (tokens : List Token) : (ofTokens tokens).Closed := by
  cases tokens with
  | nil => exact closed_empty
  | cons first rest =>
      rw [ofTokens_cons]
      exact Tree.closed_toArena _

theorem size_ofTokens_le (tokens : List Token) : (ofTokens tokens).size ≤ tokens.length := by
  cases tokens with
  | nil => exact Nat.le_refl 0
  | cons first rest =>
      rw [ofTokens_cons, Tree.size_toArena, Tree.size, List.length_cons]
      exact Nat.succ_le_succ (sizes_readChildren_le rest)

/-- Only the root can have a closing as its label: the first token, whatever it is. -/
theorem eq_zero_of_label_closing {tokens : List Token} {index : Nat} {node : Node}
    (hnode : (ofTokens tokens).node? index = some node) (hlabel : node.label = .closing) :
    index = 0 := by
  cases tokens with
  | nil => simp [ofTokens, empty, node?] at hnode
  | cons first rest =>
      rw [ofTokens_cons, node?_eq_getElem?_toList] at hnode
      cases index with
      | zero => rfl
      | succ index =>
          have hmem : node.label ∈ Tree.labelsAll (readChildren rest).1 := by
            rw [← Tree.map_label_layouts 1]
            exact List.mem_map_of_mem (List.mem_of_getElem? hnode)
          rw [hlabel] at hmem
          exact absurd hmem (closing_not_mem_labelsAll_readChildren rest)

/-- **The builder makes ordered trees.** From any tokens it makes an ordered tree, or the empty
arena if there are none, with at most one node for each token and no closing as a label below the
root. No access by an index leaves the arena afterwards; nor does one leave it while it is made,
since behind every part of the tokens the nodes whose groups are open are in it. -/
theorem orderedTree_ofTokens (tokens : List Token) :
    (ofTokens tokens = .empty ↔ tokens = []) ∧
      (tokens ≠ [] → (ofTokens tokens).OrderedTree) ∧
      (ofTokens tokens).size ≤ tokens.length ∧
      (∀ index node, (ofTokens tokens).node? index = some node → node.label = .closing →
        index = 0) ∧
      (ofTokens tokens).AccessesInside ∧
      ∀ first before, first :: before <+: tokens →
        ∀ index ∈ (Builder.run first before).openNodes,
          index < (Builder.run first before).arena.size := by
  refine ⟨ofTokens_eq_empty_iff, fun hne => ?_, size_ofTokens_le tokens,
    fun _ _ => eq_zero_of_label_closing, (closed_ofTokens tokens).accessesInside,
    fun first before _ => Builder.openNodes_lt_size first before⟩
  obtain ⟨first, rest, rfl⟩ := List.exists_cons_of_ne_nil hne
  rw [ofTokens_cons]
  exact Tree.orderedTree_toArena _

/-- A closing at the root, a doubled opening, and groups that nothing closes. -/
theorem unclosed_groups_ordered :
    [Token.closing, .opening, .opening, .name "x", .opening, .lambda] ≠ [] ∧
      (ofTokens [.closing, .opening, .opening, .name "x", .opening, .lambda]).OrderedTree :=
  ⟨List.cons_ne_nil _ _, (orderedTree_ofTokens _).2.1 (List.cons_ne_nil _ _)⟩

end Arena

end LambdaSyntax
