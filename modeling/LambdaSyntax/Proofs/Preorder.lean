import Mathlib.Data.Set.Card
import LambdaSyntax.Proofs.Ownership

/-!
Walks and the recursive traversal.

A walk keeps the nodes that wait in a list and knows nothing of the tree; that it comes to an end,
and that it meets no node twice, is due to the arena. `Arena.Preorder` is the recursive traversal,
read off the children's indices of any arena, and `Walk.Gives` says what a walk gives until nothing
waits, with no bound on its length. Where the recursive traversal ends, the walk gives the same and
ends too (`Walk.Gives.of_preorder`), whatever the arena and whatever waits behind.

The arena built from tokens is the layout of a tree, so the traversal ends and finds the nodes in
the order of the arena. The depth that goes with a node is the number of its proper ancestors. The
traversal counts along the links, one more for each child, and in an ordered tree the ancestors of a
child are its parent and the ancestors of that.

* `Walk.Gives.of_preorder`: a walk is the recursive traversal, with what waits behind it.
* `Arena.OrderedTree.depth_eq_ncard_ancestors`: depths count ancestors.
* `Arena.visits_ofTokens_preorder`: the traversal of the tree built from any tokens.
-/

namespace LambdaSyntax

/-! ### Traversals -/

/-- The recursive pre-order traversal from some nodes at the same depth: the first of them, what the
traversal from its children finds, and then what the traversal from the others finds. Each visit
stands with the index of its node. -/
inductive Arena.Preorder (arena : Arena) : Nat → List Nat → List (Visit × Nat) → Prop where
  | nil {depth : Nat} : arena.Preorder depth [] []
  | cons {depth index : Nat} {node : Node} {indices : List Nat}
      {below behind : List (Visit × Nat)} :
      arena.node? index = some node →
      arena.Preorder (depth + 1) node.children.toList below →
      arena.Preorder depth indices behind →
      arena.Preorder depth (index :: indices) ((⟨depth, node⟩, index) :: below ++ behind)

/-- A walk gives these visits, each with the index of its node, and then nothing waits. -/
inductive Walk.Gives (arena : Arena) : Walk → List (Visit × Nat) → Prop where
  | finished : Gives arena ⟨[]⟩ []
  | next {depth index : Nat} {rest : List (Nat × Nat)} {visit : Visit} {after : Walk}
      {found : List (Visit × Nat)} :
      next? arena ⟨(depth, index) :: rest⟩ = some (visit, after) → Gives arena after found →
      Gives arena ⟨(depth, index) :: rest⟩ ((visit, index) :: found)

/-- The proper ancestors of a node, by their indices. -/
def Arena.ancestors (arena : Arena) (index : Nat) : Set Nat :=
  {ancestor | Relation.TransGen arena.HasChild ancestor index}

/-! ### A walk traverses recursively -/

namespace Walk

variable {arena : Arena}

theorem Gives.unique {walk : Walk} {found found' : List (Visit × Nat)}
    (h : Gives arena walk found) (h' : Gives arena walk found') : found = found' := by
  induction h generalizing found' with
  | finished =>
      cases h'
      rfl
  | next hnext _ ih =>
      cases h' with
      | next hnext' hafter' =>
          obtain ⟨rfl, rfl⟩ := Prod.mk.inj (Option.some.inj (hnext.symm.trans hnext'))
          rw [ih hafter']

/-- **A walk is the recursive traversal**, in any arena and with anything waiting behind it. -/
theorem Gives.of_preorder {depth : Nat} {indices : List Nat} {found more : List (Visit × Nat)}
    {rest : List (Nat × Nat)} (h : arena.Preorder depth indices found)
    (hrest : Gives arena ⟨rest⟩ more) :
    Gives arena ⟨indices.map (fun index => (depth, index)) ++ rest⟩ (found ++ more) := by
  induction h generalizing rest more with
  | nil => exact hrest
  | cons hnode _ _ ihbelow ihbehind =>
      -- The children wait in front of the others.
      rw [List.map_cons, List.cons_append, List.cons_append, List.cons_append, List.append_assoc]
      exact .next (next?_cons hnode) (ihbelow (ihbehind hrest))

theorem gives_start_of_preorder {found : List (Visit × Nat)}
    (h : arena.Preorder 0 arena.rootIndex?.toList found) : Gives arena (start arena) found := by
  have hgives := Gives.of_preorder h .finished
  rwa [List.append_nil, List.append_nil] at hgives

end Walk

/-- An arena has one recursive traversal at most. -/
theorem Arena.Preorder.unique {arena : Arena} {depth : Nat} {indices : List Nat}
    {found found' : List (Visit × Nat)} (h : arena.Preorder depth indices found)
    (h' : arena.Preorder depth indices found') : found = found' := by
  have hgives := Walk.Gives.unique (.of_preorder h .finished) (.of_preorder h' .finished)
  rwa [List.append_nil, List.append_nil] at hgives

/-! ### The traversal of a layout -/

namespace Tree

theorem length_visitsFrom (depth start : Nat) (tree : Tree) :
    (tree.visitsFrom depth start).length = tree.size := by
  rw [← List.length_map Visit.node, nodes_visitsFrom, length_layout]

/-- **Where an arena holds trees**, the recursive traversal finds their nodes in the order in which
they stand. -/
theorem preorder_of_holds {arena : Arena} (depth start : Nat) :
    ∀ trees : List Tree, arena.Holds start (layouts start trees) →
      arena.Preorder depth (offsets start trees) ((visitsFromAll depth start trees).zipIdx start)
  | [], _ => .nil
  | .node label children :: trees, h => by
      obtain ⟨⟨hroot, hchildren⟩, htrees⟩ := Arena.holds_append.mp h
      rw [length_layout] at htrees
      have hbelow := preorder_of_holds (depth + 1) (start + 1) children hchildren
      have hbehind := preorder_of_holds depth (start + size (.node label children)) trees htrees
      rw [offsets, visitsFromAll, List.zipIdx_append, length_visitsFrom, visitsFrom,
        List.zipIdx_cons]
      exact .cons hroot hbelow hbehind

theorem preorder_toArena (tree : Tree) :
    tree.toArena.Preorder 0 tree.toArena.rootIndex?.toList tree.toArena.visits.zipIdx := by
  have hnodes : tree.toArena.Holds 0 (layouts 0 [tree]) := by
    rw [layouts, layouts, List.append_nil]
    exact Arena.holds_nodes [] _ _
  have htrees := preorder_of_holds 0 0 [tree] hnodes
  rw [visitsFromAll, visitsFromAll, List.append_nil, ← visits_toArena] at htrees
  exact htrees

end Tree

/-! ### Depths and ancestors -/

namespace Arena

variable {arena : Arena}

/-- **The traversal counts along the links**: every visit is of one of the nodes at which it began,
or is one deeper than that of a parent of its node. -/
theorem Preorder.depth_of_mem {depth : Nat} {indices : List Nat} {found : List (Visit × Nat)}
    (h : arena.Preorder depth indices found) {visit : Visit} {index : Nat}
    (hmem : (visit, index) ∈ found) :
    (index ∈ indices ∧ visit.depth = depth) ∨
      ∃ above parent, (above, parent) ∈ found ∧ arena.HasChild parent index ∧
        visit.depth = above.depth + 1 := by
  induction h with
  | nil => cases hmem
  | cons hnode _ _ ihbelow ihbehind =>
      rcases List.mem_append.mp hmem with hbelow | hbehind
      · rcases List.mem_cons.mp hbelow with hfirst | hbelow
        · cases hfirst
          exact .inl ⟨List.mem_cons_self, rfl⟩
        · rcases ihbelow hbelow with ⟨hchild, hdepth⟩ | ⟨above, parent, habove, hparent⟩
          · exact .inr ⟨_, _, List.mem_append_left _ List.mem_cons_self,
              ⟨_, hnode, Array.mem_toList_iff.mp hchild⟩, hdepth⟩
          · exact .inr ⟨above, parent,
              List.mem_append_left _ (List.mem_cons_of_mem _ habove), hparent⟩
      · rcases ihbehind hbehind with ⟨hindex, hdepth⟩ | ⟨above, parent, habove, hparent⟩
        · exact .inl ⟨List.mem_cons_of_mem _ hindex, hdepth⟩
        · exact .inr ⟨above, parent, List.mem_append_right _ habove, hparent⟩

namespace OrderedTree

variable (h : arena.OrderedTree) {parent child : Nat}
include h

theorem ancestors_zero : arena.ancestors 0 = ∅ := by
  refine Set.eq_empty_iff_forall_notMem.mpr fun ancestor hancestor => ?_
  obtain ⟨parent, -, hparent⟩ := Relation.TransGen.tail'_iff.mp hancestor
  exact h.root_not_child parent hparent

/-- The ancestors of a child are its one parent and the ancestors of that. -/
theorem ancestors_of_hasChild (hchild : arena.HasChild parent child) :
    arena.ancestors child = insert parent (arena.ancestors parent) := by
  have hne : child ≠ 0 := by
    rintro rfl
    exact h.root_not_child parent hchild
  have hunique : ∀ other, arena.HasChild other child → other = parent := fun other hother =>
    (h.existsUnique_parent child hne (h.child_lt_size hchild)).unique hother hchild
  ext ancestor
  constructor
  · intro hancestor
    cases hancestor with
    | single hother => exact .inl (hunique _ hother)
    | tail habove hother =>
        obtain rfl := hunique _ hother
        exact .inr habove
  · rintro (rfl | habove)
    · exact .single hchild
    · exact .tail habove hchild

theorem lt_of_mem_ancestors {ancestor index : Nat} (hancestor : ancestor ∈ arena.ancestors index) :
    ancestor < index := by
  induction hancestor with
  | single hchild => exact h.parent_lt_child hchild
  | tail _ hchild ih => exact ih.trans (h.parent_lt_child hchild)

theorem ncard_ancestors_of_hasChild (hchild : arena.HasChild parent child) :
    (arena.ancestors child).ncard = (arena.ancestors parent).ncard + 1 := by
  have hfinite : (arena.ancestors parent).Finite :=
    (Set.finite_lt_nat parent).subset fun _ => h.lt_of_mem_ancestors
  have hself : parent ∉ arena.ancestors parent := fun hmem =>
    Nat.lt_irrefl parent (h.lt_of_mem_ancestors hmem)
  rw [h.ancestors_of_hasChild hchild, Set.ncard_insert_of_notMem hself hfinite]

/-- **Depths count ancestors.** -/
theorem depth_eq_ncard_ancestors {found : List (Visit × Nat)}
    (hfound : arena.Preorder 0 arena.rootIndex?.toList found) {visit : Visit} {index : Nat}
    (hmem : (visit, index) ∈ found) : visit.depth = (arena.ancestors index).ncard := by
  -- A parent stands before its children, so its depth is known when theirs are asked for.
  induction index using Nat.strongRecOn generalizing visit with
  | ind index ih =>
      rcases hfound.depth_of_mem hmem with ⟨hroot, hdepth⟩ | ⟨above, parent, habove, hchild, hdepth⟩
      · rw [h.root_eq_zero, Option.toList_some, List.mem_singleton] at hroot
        rw [hdepth, hroot, h.ancestors_zero, Set.ncard_empty]
      · rw [hdepth, h.ncard_ancestors_of_hasChild hchild,
          ih parent (h.parent_lt_child hchild) habove]

end OrderedTree

/-! ### The arena built -/

theorem preorder_visits_ofTokens (tokens : List Token) :
    (ofTokens tokens).Preorder 0 (ofTokens tokens).rootIndex?.toList
      (ofTokens tokens).visits.zipIdx := by
  cases tokens with
  | nil => exact .nil
  | cons first rest =>
      rw [ofTokens_cons]
      exact Tree.preorder_toArena _

theorem getElem?_visits_ofTokens (tokens : List Token) (index : Nat) :
    (ofTokens tokens).visits[index]?.map Visit.node = (ofTokens tokens).node? index := by
  rw [← List.getElem?_map, nodes_visits_ofTokens, node?_eq_getElem?_toList]

/-- The depth that goes with a node is the number of its ancestors, so it is zero for the root and
one more than that of its parent for any other node. -/
theorem depth_visits_ofTokens {tokens : List Token} {index : Nat} {visit : Visit}
    (hvisit : (ofTokens tokens).visits[index]? = some visit) :
    visit.depth = ((ofTokens tokens).ancestors index).ncard ∧
      ((ofTokens tokens).rootIndex? = some index → visit.depth = 0) ∧
      ∀ parent above, (ofTokens tokens).HasChild parent index →
        (ofTokens tokens).visits[parent]? = some above → visit.depth = above.depth + 1 := by
  cases tokens with
  | nil => simp [ofTokens, empty, visits, size] at hvisit
  | cons first rest =>
      have hordered : (ofTokens (first :: rest)).OrderedTree := by
        rw [ofTokens_cons]
        exact Tree.orderedTree_toArena _
      have hdepth : ∀ {i found}, (ofTokens (first :: rest)).visits[i]? = some found →
          found.depth = ((ofTokens (first :: rest)).ancestors i).ncard := fun hfound =>
        hordered.depth_eq_ncard_ancestors (preorder_visits_ofTokens (first :: rest))
          (List.mem_zipIdx_iff_getElem?.mpr hfound)
      refine ⟨hdepth hvisit, fun hroot => ?_, fun parent above hchild habove => ?_⟩
      · obtain rfl : 0 = index := Option.some.inj (hordered.root_eq_zero.symm.trans hroot)
        rw [hdepth hvisit, hordered.ancestors_zero, Set.ncard_empty]
      · rw [hdepth hvisit, hdepth habove, hordered.ncard_ancestors_of_hasChild hchild]

/-- **The traversal of a tree built from tokens.** The walk from its root gives what the recursive
traversal finds, one visit for each index of the arena in increasing order, and is then over. The
visit that goes with an index has the node there, at a depth that is the number of its proper
ancestors: none for the root, and for every other node one more than for its parent. -/
theorem visits_ofTokens_preorder (tokens : List Token) :
    let arena := ofTokens tokens
    (∀ found, arena.Preorder 0 arena.rootIndex?.toList found ↔ found = arena.visits.zipIdx) ∧
      (∀ found, Walk.Gives arena (Walk.start arena) found ↔ found = arena.visits.zipIdx) ∧
      arena.visits.length = arena.size ∧
      (∀ index : Nat, arena.visits[index]?.map Visit.node = arena.node? index) ∧
      ∀ (index : Nat) (visit : Visit), arena.visits[index]? = some visit →
        visit.depth = (arena.ancestors index).ncard ∧
          (arena.rootIndex? = some index → visit.depth = 0) ∧
          ∀ parent above, arena.HasChild parent index → arena.visits[parent]? = some above →
            visit.depth = above.depth + 1 := by
  intro arena
  have hpreorder := preorder_visits_ofTokens tokens
  have hgives := Walk.gives_start_of_preorder hpreorder
  refine ⟨fun found => ?preorder, fun found => ?gives, length_visits_ofTokens tokens,
    getElem?_visits_ofTokens tokens, fun index visit hvisit => depth_visits_ofTokens hvisit⟩
  case preorder =>
    constructor
    · exact fun h => h.unique hpreorder
    · rintro rfl
      exact hpreorder
  case gives =>
    constructor
    · exact fun h => h.unique hgives
    · rintro rfl
      exact hgives

/-- A doubled opening: the second one is the label of a node, and the name in it lies below that. -/
theorem name_below_doubled_opening :
    let arena := ofTokens [.name "x", .opening, .opening, .name "y", .closing, .name "z"]
    arena.rootIndex? = some 0 ∧ arena.HasChild 1 2 ∧
      ∃ root above visit, arena.visits[0]? = some root ∧ arena.visits[1]? = some above ∧
        arena.visits[2]? = some visit ∧ root.depth = 0 ∧ visit.depth = above.depth + 1 ∧
        (arena.ancestors 2).ncard = 2 := by
  intro arena
  have hroot : arena.rootIndex? = some 0 := rfl
  have hchild : arena.HasChild 1 2 := ⟨⟨.opening, #[2]⟩, rfl, Array.mem_singleton.mpr rfl⟩
  have hfirst : arena.visits[0]? = some ⟨0, .name "x", #[1, 3]⟩ := rfl
  have habove : arena.visits[1]? = some ⟨1, .opening, #[2]⟩ := rfl
  have hvisit : arena.visits[2]? = some ⟨2, .name "y", #[]⟩ := rfl
  obtain ⟨-, -, -, -, hdepths⟩ := visits_ofTokens_preorder
    [.name "x", .opening, .opening, .name "y", .closing, .name "z"]
  obtain ⟨hcount, -, hparent⟩ := hdepths 2 _ hvisit
  exact ⟨hroot, hchild, _, _, _, hfirst, habove, hvisit, (hdepths 0 _ hfirst).2.1 hroot,
    hparent 1 _ hchild habove, hcount.symm⟩

end Arena

end LambdaSyntax
