import LambdaSyntax.Proofs.Extension
import LambdaSyntax.Proofs.Preorder
import LambdaSyntax.Proofs.Retention

/-!
Depth and nesting.

A node is made when the builder comes to the token that is its label, and lies as deep as groups are
open then. How many are open is a matter of counting (`Builder.balanced_run`): the openings read,
less the closings, less the openings that became labels and so started no group. An opening whose
head is still to come is counted before it opens its group, which makes the difference between the
head of a group and a node without one.

* `Builder.depths_run_concat`: the depth of a node is the number of open groups when it is made.
* `Builder.balanced_run`: how many groups are open.
* `Builder.exists_makes_iff`: every node but the root is made at just one token.
* `Token.Makes.depth_balanced`: how deep the node lies that a token makes.
* `Arena.depth_by_nesting`: the depth of every node but the root from the tokens before its label.
-/

namespace LambdaSyntax

/-! ### The depths of a tree -/

namespace Tree

mutual
/-- The depths of the nodes of a tree in pre-order, the root being at `depth`. -/
def depthsFrom (depth : Nat) : Tree → List Nat
  | .node _ children => depth :: depthsFromAll (depth + 1) children

/-- The depths of the nodes of some trees, one tree after the other. -/
def depthsFromAll (depth : Nat) : List Tree → List Nat
  | [] => []
  | tree :: rest => tree.depthsFrom depth ++ depthsFromAll depth rest
end

mutual
theorem map_depth_visitsFrom (depth start : Nat) :
    ∀ tree : Tree, (tree.visitsFrom depth start).map Visit.depth = tree.depthsFrom depth
  | .node label children => by
      simp [visitsFrom, depthsFrom, map_depth_visitsFromAll (depth + 1) (start + 1) children]

theorem map_depth_visitsFromAll (depth start : Nat) :
    ∀ trees : List Tree, (visitsFromAll depth start trees).map Visit.depth =
      depthsFromAll depth trees
  | [] => rfl
  | tree :: rest => by
      simp [visitsFromAll, depthsFromAll, map_depth_visitsFrom depth start tree,
        map_depth_visitsFromAll depth (start + tree.size) rest]
end

theorem depthsFromAll_append (depth : Nat) (first second : List Tree) :
    depthsFromAll depth (first ++ second) =
      depthsFromAll depth first ++ depthsFromAll depth second := by
  induction first with
  | nil => rfl
  | cons tree rest ih => simp [depthsFromAll, ih]

end Tree

namespace Arena

/-- The depths of the nodes of an arena, in the order of its traversal. -/
def depths (arena : Arena) : List Nat := arena.visits.map Visit.depth

theorem length_labels (arena : Arena) : arena.labels.length = arena.size := by
  simp [labels, size]

theorem getElem?_labels (arena : Arena) (index : Nat) :
    arena.labels[index]? = (arena.node? index).map Node.label := by
  simp [labels, node?]

theorem length_depths_ofTokens (tokens : List Token) :
    (ofTokens tokens).depths.length = (ofTokens tokens).size := by
  rw [depths, List.length_map, length_visits_ofTokens]

end Arena

theorem Tree.depths_toArena (tree : Tree) : tree.toArena.depths = tree.depthsFrom 0 := by
  rw [Arena.depths, visits_toArena, map_depth_visitsFrom]

open LambdaSyntax.Tree

/-- The depths of nodes with their children around one another, the innermost first. -/
def depthsAround : List Frame → List Nat
  | [] => []
  | frame :: outer => depthsAround outer ++ frame.tree.depthsFrom outer.length

/-- **A tree lies as deep as there are nodes around it.** -/
theorem depthsFrom_graft (tree : Tree) (outer : List Frame) :
    (graft tree outer).depthsFrom 0 = depthsAround outer ++ tree.depthsFrom outer.length := by
  induction outer generalizing tree with
  | nil => rfl
  | cons frame outer ih =>
      rw [graft, ih, depthsAround, List.append_assoc]
      simp [Frame.add, Frame.tree, depthsFrom, depthsFromAll, depthsFromAll_append]

/-! ### What a token makes -/

namespace Builder

/-- Whether the builder makes a node when it comes to a token. -/
def makesNode : Builder → Token → Bool
  | ⟨_, [], _⟩, _ => false
  | ⟨_, _ :: _, true⟩, token => token ≠ .closing
  | ⟨_, _ :: _, false⟩, token => token.isTerm

theorem run_concat (first : Token) (before : List Token) (token : Token) :
    run first (before ++ [token]) = (run first before).step token := by
  rw [run_append]
  rfl

/-- The node made gets the token as its label. -/
theorem labels_step (builder : Builder) (token : Token) :
    (builder.step token).arena.labels =
      builder.arena.labels ++ if builder.makesNode token then [token] else [] := by
  obtain ⟨arena, openNodes, awaitingHead⟩ := builder
  cases openNodes with
  | nil => simp [step, makesNode]
  | cons parent outer =>
      cases awaitingHead with
      | true => by_cases hclosing : token = .closing <;>
          simp [step, makesNode, hclosing, Arena.labels_attach]
      | false => cases token <;> simp [step, makesNode, Token.isTerm, Arena.labels_attach]

end Builder

namespace Growth

/-- A childless node that is added to the innermost open one comes last, one deeper than that. -/
theorem depthsFrom_graft_childless (label : Token) (innermost : Frame) (outer : List Frame) :
    (graft (.node label []) (innermost :: outer)).depthsFrom 0 =
      (graft innermost.tree outer).depthsFrom 0 ++ [outer.length + 1] := by
  rw [depthsFrom_graft, depthsFrom_graft, depthsAround]
  rfl

theorem length_positions (frames : List Frame) : (positions frames).length = frames.length := by
  induction frames with
  | nil => rfl
  | cons frame outer ih => rw [positions, List.length_cons, List.length_cons, ih]

/-- **The node made lies as deep as groups are open.** -/
theorem depths_step (growth : Growth) (token : Token) :
    (growth.step token).tree.depthsFrom 0 = growth.tree.depthsFrom 0 ++
      if growth.builder.makesNode token then [growth.builder.openNodes.length] else [] := by
  cases growth with
  | complete tree => exact (List.append_nil _).symm
  | growing innermost outer awaitingHead =>
      have hmade := depthsFrom_graft_childless token innermost outer
      have hopen : (growing innermost outer awaitingHead).builder.openNodes.length =
          outer.length + 1 := length_positions (innermost :: outer)
      rw [hopen]
      cases awaitingHead with
      | true =>
          by_cases hclosing : token = .closing
          · subst hclosing
            exact (List.append_nil _).symm
          · have hmakes : (growing innermost outer true).builder.makesNode token = true := by
              simp [builder, positions, Builder.makesNode, hclosing]
            have hstep : (growing innermost outer true).step token =
                growing ⟨token, []⟩ (innermost :: outer) false := by
              simp [step, hclosing]
            rw [if_pos hmakes, hstep]
            exact hmade
      | false =>
          cases token with
          | opening => exact (List.append_nil _).symm
          | closing =>
              rw [tree_step_closing]
              exact (List.append_nil _).symm
          | name text => exact hmade
          | lambda => exact hmade

end Growth

namespace Builder

/-- The node made lies as deep as groups are open. -/
theorem depths_run_concat (first : Token) (before : List Token) (token : Token) :
    (run first (before ++ [token])).arena.depths = (run first before).arena.depths ++
      if (run first before).makesNode token then [(run first before).openNodes.length] else [] := by
  have hgrowth : run first before = (before.foldl Growth.step (.start first)).builder := by
    rw [run, ← Growth.builder_start, Growth.builder_run]
  rw [run_concat, hgrowth, Growth.builder_step, Growth.arena_builder, Growth.arena_builder,
    Tree.depths_toArena, Tree.depths_toArena, Growth.depths_step]

theorem labels_run_concat (first : Token) (before : List Token) (token : Token) :
    (run first (before ++ [token])).arena.labels = (run first before).arena.labels ++
      if (run first before).makesNode token then [token] else [] := by
  rw [run_concat, labels_step]

theorem size_run_concat (first : Token) (before : List Token) (token : Token) :
    (run first (before ++ [token])).arena.size =
      (run first before).arena.size + ((run first before).makesNode token).toNat := by
  rw [← Arena.length_labels, labels_run_concat, List.length_append, Arena.length_labels]
  cases (run first before).makesNode token <;> rfl

/-- More tokens leave the labels and depths of the nodes made as they are. -/
theorem labels_run_prefix (first : Token) (before more : List Token) :
    (run first before).arena.labels <+: (run first (before ++ more)).arena.labels ∧
      (run first before).arena.depths <+: (run first (before ++ more)).arena.depths := by
  induction more using List.reverseRecOn with
  | nil => simp
  | append_singleton more token ih =>
      rw [← List.append_assoc, labels_run_concat, depths_run_concat]
      exact ⟨ih.1.trans (List.prefix_append _ _), ih.2.trans (List.prefix_append _ _)⟩

/-! ### How many groups are open -/

/-- The labels of the nodes made below the root. -/
def madeBelow (first : Token) (before : List Token) : List Token :=
  (run first before).arena.labels.tail

theorem madeBelow_concat (first : Token) (before : List Token) (token : Token) :
    madeBelow first (before ++ [token]) = madeBelow first before ++
      if (run first before).makesNode token then [token] else [] := by
  have hne : (run first before).arena.labels ≠ [] := by
    rw [run, labels_run]
    exact List.cons_ne_nil _ _
  rw [madeBelow, labels_run_concat, List.tail_append_of_ne_nil hne, madeBelow]

/-- The groups that are open, counted: each opening read starts one, unless it labels a node, and
the last one not before its head has come. `made` are the labels of the nodes below the root. -/
def Balanced (before made : List Token) (builder : Builder) : Prop :=
  builder.openNodes ≠ [] →
    builder.openNodes.length + before.count .closing + made.count .opening +
      builder.awaitingHead.toNat = 1 + before.count .opening

theorem Balanced.step {before made : List Token} {builder : Builder}
    (h : Balanced before made builder) (token : Token) :
    Balanced (before ++ [token]) (made ++ if builder.makesNode token then [token] else [])
      (builder.step token) := by
  obtain ⟨arena, openNodes, awaitingHead⟩ := builder
  intro hopen
  cases openNodes with
  | nil => exact absurd rfl hopen
  | cons parent outer =>
      have hbefore := h (List.cons_ne_nil parent outer)
      cases awaitingHead with
      | true =>
          cases token <;> simp [Builder.step, makesNode] at hbefore ⊢ <;> omega
      | false =>
          cases token <;> simp [Builder.step, makesNode, Token.isTerm] at hbefore ⊢ <;> omega

/-- **The groups that are open are those that the tokens before start and do not end.** -/
theorem balanced_run (first : Token) (before : List Token) :
    Balanced before (madeBelow first before) (run first before) := by
  induction before using List.reverseRecOn with
  | nil =>
      intro _
      rfl
  | append_singleton before token ih =>
      rw [madeBelow_concat, run_concat]
      exact ih.step token

/-! ### Heads and childless nodes -/

/-- A node is made only where a group is open. -/
theorem openNodes_ne_nil_of_makesNode {builder : Builder} {token : Token}
    (h : builder.makesNode token = true) : builder.openNodes ≠ [] := by
  obtain ⟨arena, openNodes, awaitingHead⟩ := builder
  rintro rfl
  cases h

/-- An opening is a label only where a head is awaited. -/
theorem awaitingHead_of_makesNode_opening {builder : Builder}
    (h : builder.makesNode .opening = true) : builder.awaitingHead = true := by
  obtain ⟨arena, openNodes, awaitingHead⟩ := builder
  cases openNodes with
  | nil => cases h
  | cons parent outer =>
      cases awaitingHead with
      | true => rfl
      | false => cases h

/-- **A head is awaited behind an opening that makes no node**, as long as a group is open. -/
theorem awaitingHead_step_iff {builder : Builder} {token : Token}
    (hopen : (builder.step token).openNodes ≠ []) :
    (builder.step token).awaitingHead = true ↔
      token = .opening ∧ builder.makesNode token = false := by
  obtain ⟨arena, openNodes, awaitingHead⟩ := builder
  cases openNodes with
  | nil => exact absurd rfl hopen
  | cons parent outer =>
      cases awaitingHead with
      | true => cases token <;> simp [step, makesNode]
      | false => cases token <;> simp [step, makesNode, Token.isTerm]

theorem awaitingHead_run_iff {first : Token} {before : List Token}
    (hopen : (run first before).openNodes ≠ []) :
    (run first before).awaitingHead = true ↔
      ∃ earlier, before = earlier ++ [.opening] ∧
        (run first earlier).makesNode .opening = false := by
  rcases List.eq_nil_or_concat' before with rfl | ⟨before, token, rfl⟩
  · simp [run, start]
  · rw [run_concat] at hopen ⊢
    rw [awaitingHead_step_iff hopen]
    constructor
    · rintro ⟨rfl, hmakes⟩
      exact ⟨before, rfl, hmakes⟩
    · rintro ⟨earlier, heq, hmakes⟩
      obtain ⟨rfl, hlast⟩ := List.append_inj' heq rfl
      obtain rfl := List.singleton_inj.mp hlast
      exact ⟨rfl, hmakes⟩

end Builder

namespace Arena

variable {arena : Arena} {parent index : Nat} {label : Token}

theorem node?_attach_of_ne (hindex : index < arena.size) (hne : parent ≠ index) :
    (arena.attach parent label).node? index = arena.node? index := by
  have hlt : index < arena.nodes.size := hindex
  simp [node?, attach, addChild, push, Array.getElem?_modify, hne, Array.getElem?_push,
    Nat.ne_of_lt hlt]

theorem node?_attach_size (hparent : parent < arena.size) :
    (arena.attach parent label).node? arena.size = some ⟨label, #[]⟩ := by
  have hne : parent ≠ arena.nodes.size := Nat.ne_of_lt hparent
  simp only [node?, attach, addChild, push, size, Array.getElem?_modify, if_neg hne]
  exact Array.getElem?_push_size

end Arena

namespace Builder

/-- The node at an index is there, and its group is not open. -/
structure Settled (builder : Builder) (index : Nat) (node : Node) : Prop where
  node?_eq : builder.arena.node? index = some node
  not_mem_openNodes : index ∉ builder.openNodes

/-- A node whose group is not open gets no children any more. -/
theorem Settled.step {builder : Builder} {index : Nat} {node : Node}
    (h : builder.Settled index node) (token : Token) : (builder.step token).Settled index node := by
  obtain ⟨arena, openNodes, awaitingHead⟩ := builder
  obtain ⟨hnode, hclosed⟩ := h
  cases openNodes with
  | nil => exact ⟨hnode, hclosed⟩
  | cons parent outer =>
      have hparent : index ≠ parent := List.ne_of_not_mem_cons hclosed
      have houter : index ∉ outer := List.not_mem_of_not_mem_cons hclosed
      have hindex : index < arena.size := Arena.exists_node?_iff.mp ⟨node, hnode⟩
      have hattach : (arena.attach parent token).node? index = some node := by
        rw [Arena.node?_attach_of_ne hindex (Ne.symm hparent)]
        exact hnode
      cases awaitingHead with
      | true =>
          by_cases hclosing : token = .closing
          · subst hclosing
            exact ⟨hnode, hclosed⟩
          · rw [Builder.step, if_neg hclosing]
            have hsize : index ≠ arena.size := Nat.ne_of_lt hindex
            exact ⟨hattach, List.not_mem_cons_of_ne_of_not_mem hsize hclosed⟩
      | false =>
          cases token with
          | opening => exact ⟨hnode, hclosed⟩
          | closing => exact ⟨hnode, houter⟩
          | name text => exact ⟨hattach, hclosed⟩
          | lambda => exact ⟨hattach, hclosed⟩

theorem Settled.foldl_step {builder : Builder} {index : Nat} {node : Node}
    (h : builder.Settled index node) (tokens : List Token) :
    (tokens.foldl Builder.step builder).Settled index node := by
  induction tokens generalizing builder with
  | nil => exact h
  | cons token rest ih => exact ih (h.step token)

/-- A node that is made where no head is awaited has no group. -/
theorem settled_step {builder : Builder} {token : Token}
    (hmakes : builder.makesNode token = true) (hhead : builder.awaitingHead = false)
    (hopen : ∀ index ∈ builder.openNodes, index < builder.arena.size) :
    (builder.step token).Settled builder.arena.size ⟨token, #[]⟩ := by
  obtain ⟨arena, openNodes, awaitingHead⟩ := builder
  obtain rfl : awaitingHead = false := hhead
  cases openNodes with
  | nil => cases hmakes
  | cons parent outer =>
      have hnode : (arena.attach parent token).node? arena.size = some ⟨token, #[]⟩ :=
        Arena.node?_attach_size (hopen parent List.mem_cons_self)
      have hclosed : arena.size ∉ parent :: outer := fun hmem => Nat.lt_irrefl _ (hopen _ hmem)
      cases token with
      | opening => cases hmakes
      | closing => cases hmakes
      | name text => exact ⟨hnode, hclosed⟩
      | lambda => exact ⟨hnode, hclosed⟩

/-- **A node that is no head has no children**, whatever follows. -/
theorem node?_of_makesNode {first token : Token} {before : List Token}
    (hmakes : (run first before).makesNode token = true)
    (hhead : (run first before).awaitingHead = false) (more : List Token) :
    (run first (before ++ token :: more)).arena.node? (run first before).arena.size =
      some ⟨token, #[]⟩ := by
  have hsettled := settled_step hmakes hhead (openNodes_lt_size first before)
  rw [run_append]
  exact (hsettled.foldl_step more).node?_eq

variable {first token : Token} {before : List Token}

/-- **Without two openings in a row no opening is a label** below the root. -/
theorem opening_notMem_madeBelow (hrow : ¬ [.opening, .opening] <:+: before) :
    .opening ∉ madeBelow first before := by
  induction before using List.reverseRecOn with
  | nil => exact List.not_mem_nil
  | append_singleton before token ih =>
      have hbefore := ih fun hinner => hrow (hinner.trans (List.prefix_append _ _).isInfix)
      rw [madeBelow_concat, List.mem_append, not_or]
      refine ⟨hbefore, fun hmem => ?_⟩
      split at hmem
      case isFalse => cases hmem
      case isTrue hmakes =>
        obtain rfl := List.mem_singleton.mp hmem
        have hopen := openNodes_ne_nil_of_makesNode hmakes
        have hhead := awaitingHead_of_makesNode_opening hmakes
        obtain ⟨earlier, rfl, -⟩ := (awaitingHead_run_iff hopen).mp hhead
        refine hrow (List.IsSuffix.isInfix ⟨earlier, ?_⟩)
        rw [List.append_assoc, List.singleton_append]

/-- **What is added where a node is made**, whatever follows: the node comes behind those made
before, with the token as its label and as deep as groups are open. -/
theorem labels_of_makesNode (hmakes : (run first before).makesNode token = true)
    (more : List Token) :
    let made := (run first before).arena
    let arena := (run first (before ++ token :: more)).arena
    arena.labels.take made.size = made.labels ∧ arena.labels[made.size]? = some token ∧
      arena.depths[made.size]? = some (run first before).openNodes.length := by
  intro made arena
  have hlength : made.depths.length = made.size := Arena.length_depths_ofTokens (first :: before)
  obtain ⟨hlabels, hdepths⟩ := labels_run_prefix first (before ++ [token]) more
  rw [labels_run_concat, if_pos hmakes, List.append_assoc, List.singleton_append] at hlabels
  rw [depths_run_concat, if_pos hmakes, List.append_assoc, List.singleton_append] at hdepths
  obtain ⟨moreLabels, hlabels⟩ := hlabels
  obtain ⟨moreDepths, hdepths⟩ := hdepths
  refine ⟨?_, ?_, ?_⟩
  · rw [← hlabels, ← Arena.length_labels made, List.append_assoc, List.take_left]
  · rw [← hlabels, ← Arena.length_labels made]
    simp [made]
  · rw [← hdepths, ← hlength]
    simp [made]

end Builder

/-! ### The token that makes a node -/

/-- The token at a position behind the first one makes the node at an index. -/
def Token.Makes (first : Token) (rest : List Token) (position index : Nat) : Prop :=
  (Builder.run first (rest.take position)).arena.size = index ∧
    (Builder.run first (rest.take (position + 1))).arena.size = index + 1

/-- The token at a position behind the first one is the head of a group: it comes directly behind an
opening that makes no node. -/
def Token.HeadsGroup (first : Token) (rest : List Token) (position : Nat) : Prop :=
  ∃ before, position = before + 1 ∧ rest[before]? = some .opening ∧
    ∀ index, ¬ Token.Makes first rest before index

namespace Builder

variable {first token : Token} {rest before : List Token} {position index : Nat}

theorem take_add_one_of_getElem? (htoken : rest[position]? = some token) :
    rest.take (position + 1) = rest.take position ++ [token] := by
  rw [List.take_add_one, htoken, Option.toList_some]

theorem makes_iff :
    Token.Makes first rest position index ↔
      ∃ token, rest[position]? = some token ∧
        (run first (rest.take position)).makesNode token = true ∧
        (run first (rest.take position)).arena.size = index := by
  cases htoken : rest[position]? with
  | none =>
      -- No token is left, so no node is added.
      have hend : rest.take (position + 1) = rest.take position := by
        rw [List.take_add_one, htoken, Option.toList_none, List.append_nil]
      constructor
      · rintro ⟨hsize, hadded⟩
        rw [hend] at hadded
        omega
      · rintro ⟨token, hsome, -⟩
        cases hsome
  | some token =>
      rw [Token.Makes, take_add_one_of_getElem? htoken, size_run_concat]
      constructor
      · rintro ⟨hsize, hadded⟩
        have hmakes : ((run first (rest.take position)).makesNode token).toNat = 1 := by omega
        exact ⟨token, rfl, Bool.toNat_eq_one.mp hmakes, hsize⟩
      · rintro ⟨_, hsome, hmakes, hsize⟩
        obtain rfl := Option.some.inj hsome
        rw [hmakes, hsize]
        exact ⟨rfl, rfl⟩

/-- The nodes made grow in number by one at most with each token. -/
theorem size_run_take_add_one (first : Token) (rest : List Token) (position : Nat) :
    (run first (rest.take position)).arena.size ≤
        (run first (rest.take (position + 1))).arena.size ∧
      (run first (rest.take (position + 1))).arena.size ≤
        (run first (rest.take position)).arena.size + 1 := by
  cases htoken : rest[position]? with
  | none => simp [List.take_add_one, htoken]
  | some token =>
      rw [take_add_one_of_getElem? htoken, size_run_concat]
      have := Bool.toNat_le ((run first (rest.take position)).makesNode token)
      omega

/-- **Every node but the root is made at a token.** -/
theorem exists_makes (hroot : index ≠ 0) (hindex : index < (run first rest).arena.size) :
    ∃ position, Token.Makes first rest position index := by
  have hprefix : ∀ length, index < (run first (rest.take length)).arena.size →
      ∃ position, Token.Makes first rest position index := by
    intro length hlength
    induction length with
    | zero => exact absurd (Nat.lt_one_iff.mp hlength) hroot
    | succ length ih =>
        by_cases hbefore : index < (run first (rest.take length)).arena.size
        · exact ih hbefore
        · have hstep := size_run_take_add_one first rest length
          exact ⟨length, by omega, by omega⟩
  rw [← List.take_length (l := rest)] at hindex
  exact hprefix rest.length hindex

/-- **No node is made twice.** -/
theorem eq_of_makes {position' : Nat} (h : Token.Makes first rest position index)
    (h' : Token.Makes first rest position' index) : position = position' := by
  have hmono : Monotone fun length => (run first (rest.take length)).arena.size :=
    monotone_nat_of_le_succ fun length => (size_run_take_add_one first rest length).1
  -- Behind the token that makes it, the node is there.
  have hle : ∀ {one other}, Token.Makes first rest one index →
      Token.Makes first rest other index → one ≤ other := by
    intro one other hone hother
    by_contra hlt
    have hsize := hmono (Nat.succ_le_of_lt (Nat.lt_of_not_le hlt))
    have hmade := hone.1
    have hthere := hother.2
    simp only [Nat.succ_eq_add_one] at hsize
    omega
  exact Nat.le_antisymm (hle h h') (hle h' h)

/-- Every node but the root is made at just one token. -/
theorem exists_makes_iff (hroot : index ≠ 0) (hindex : index < (run first rest).arena.size) :
    ∃ position, ∀ other, Token.Makes first rest other index ↔ other = position := by
  obtain ⟨position, hmade⟩ := exists_makes hroot hindex
  refine ⟨position, fun other => ⟨fun h => eq_of_makes h hmade, ?_⟩⟩
  rintro rfl
  exact hmade

end Builder

namespace Token.Makes

open Builder

variable {first : Token} {rest : List Token} {position index : Nat}
  (h : Token.Makes first rest position index)
include h

/-- The token that makes a node, with the tokens around it. -/
theorem exists_split :
    ∃ token more, rest[position]? = some token ∧ rest.take position ++ token :: more = rest ∧
      (run first (rest.take position)).makesNode token = true ∧
      (run first (rest.take position)).arena.size = index := by
  obtain ⟨token, htoken, hmakes, hsize⟩ := makes_iff.mp h
  refine ⟨token, rest.drop (position + 1), htoken, ?_, hmakes, hsize⟩
  obtain ⟨hlt, rfl⟩ := List.getElem?_eq_some_iff.mp htoken
  rw [List.cons_getElem_drop_succ, List.take_append_drop]

/-- The token is the label of the node. -/
theorem getElem?_eq {node : Node} (hnode : (run first rest).arena.node? index = some node) :
    rest[position]? = some node.label := by
  obtain ⟨token, more, htoken, hsplit, hmakes, rfl⟩ := h.exists_split
  obtain ⟨-, hlabel, -⟩ := labels_of_makesNode hmakes more
  rw [hsplit, Arena.getElem?_labels, hnode] at hlabel
  rw [htoken]
  exact hlabel.symm

/-- The nodes below the root that were made before are those that the tokens before make. -/
theorem tail_take_labels :
    ((run first rest).arena.labels.take index).tail = madeBelow first (rest.take position) := by
  obtain ⟨token, more, -, hsplit, hmakes, rfl⟩ := h.exists_split
  obtain ⟨hearlier, -, -⟩ := labels_of_makesNode hmakes more
  rw [hsplit] at hearlier
  rw [hearlier, madeBelow]

/-- **How deep the node lies**, by the tokens before the one that makes it. -/
theorem depth_balanced {visit : Visit}
    (hvisit : (run first rest).arena.visits[index]? = some visit) :
    visit.depth + (rest.take position).count .closing +
        ((run first rest).arena.labels.take index).tail.count .opening +
        (run first (rest.take position)).awaitingHead.toNat =
      1 + (rest.take position).count .opening := by
  rw [h.tail_take_labels]
  obtain ⟨token, more, -, hsplit, hmakes, rfl⟩ := h.exists_split
  obtain ⟨-, -, hopen⟩ := labels_of_makesNode hmakes more
  rw [hsplit, Arena.depths, List.getElem?_map, hvisit] at hopen
  have hdepth : visit.depth = (run first (rest.take position)).openNodes.length :=
    Option.some.inj hopen
  rw [hdepth]
  exact balanced_run first _ (openNodes_ne_nil_of_makesNode hmakes)

/-- The node is the head of a group where the builder awaits one. -/
theorem headsGroup_iff :
    Token.HeadsGroup first rest position ↔
      (run first (rest.take position)).awaitingHead = true := by
  obtain ⟨token, -, htoken, -, hmakes, -⟩ := h.exists_split
  have hopen := openNodes_ne_nil_of_makesNode hmakes
  cases position with
  | zero => simp [Token.HeadsGroup, run, start]
  | succ before =>
      have hlt : before < rest.length :=
        Nat.lt_of_succ_lt (List.getElem?_eq_some_iff.mp htoken).1
      have hprevious : rest[before]? = some rest[before] := List.getElem?_eq_getElem hlt
      rw [take_add_one_of_getElem? hprevious, run_concat] at hopen ⊢
      rw [awaitingHead_step_iff hopen]
      simp [Token.HeadsGroup, makes_iff, hprevious]

/-- A node that is no head has no children. -/
theorem children_eq_empty {node : Node} (hnode : (run first rest).arena.node? index = some node)
    (hhead : ¬ Token.HeadsGroup first rest position) : node.children = #[] := by
  rw [h.headsGroup_iff, Bool.not_eq_true] at hhead
  obtain ⟨token, more, -, hsplit, hmakes, rfl⟩ := h.exists_split
  have hchildless := node?_of_makesNode hmakes hhead more
  rw [hsplit, hnode] at hchildless
  rw [Option.some.inj hchildless]

end Token.Makes

namespace Arena

/-- **Depth and nesting.** Every node but the root is made at just one token behind the first, which
is its label. Its depth is the number of openings before that token, less the closings and less the
nodes below the root with an opening as their label that were made before it; and one more if it is
no head of a group, in which case it has no children. Where no two openings are in a row, no opening
is a label and nothing is to be taken away for that. -/
theorem depth_by_nesting (first : Token) (rest : List Token) (index : Nat) (node : Node)
    (hroot : (ofTokens (first :: rest)).rootIndex? ≠ some index)
    (hnode : (ofTokens (first :: rest)).node? index = some node) :
    ∃ (position : Nat) (visit : Visit),
      (∀ other, Token.Makes first rest other index ↔ other = position) ∧
        rest[position]? = some node.label ∧
        (ofTokens (first :: rest)).visits[index]? = some visit ∧ visit.node = node ∧
        let openings : Int := (rest.take position).count .opening
        let closings : Int := (rest.take position).count .closing
        let labelled : Int :=
          ((ofTokens (first :: rest)).labels.take index).tail.count .opening
        (Token.HeadsGroup first rest position →
          (visit.depth : Int) = openings - closings - labelled) ∧
        (¬ Token.HeadsGroup first rest position →
          node.children = #[] ∧ (visit.depth : Int) = 1 + openings - closings - labelled) ∧
        (¬ [.opening, .opening] <:+: rest →
          (Token.HeadsGroup first rest position → (visit.depth : Int) = openings - closings) ∧
          (¬ Token.HeadsGroup first rest position →
            (visit.depth : Int) = 1 + openings - closings)) := by
  have hindex : index < (ofTokens (first :: rest)).size := exists_node?_iff.mp ⟨node, hnode⟩
  have hzero : index ≠ 0 := by
    rintro rfl
    rw [ofTokens_cons] at hroot
    exact hroot rfl
  obtain ⟨position, hunique⟩ := Builder.exists_makes_iff hzero hindex
  have hmade : Token.Makes first rest position index := (hunique position).mpr rfl
  obtain ⟨visit, hvisit, hvisitNode⟩ :=
    Option.map_eq_some_iff.mp ((getElem?_visits_ofTokens (first :: rest) index).trans hnode)
  refine ⟨position, visit, hunique, hmade.getElem?_eq hnode, hvisit, hvisitNode, ?_⟩
  intro openings closings labelled
  have harena : (Builder.run first rest).arena = ofTokens (first :: rest) := rfl
  have hbalanced := hmade.depth_balanced hvisit
  rw [harena] at hbalanced
  have hhead : Token.HeadsGroup first rest position →
      (visit.depth : Int) = openings - closings - labelled := by
    intro hheads
    rw [hmade.headsGroup_iff.mp hheads, Bool.toNat_true] at hbalanced
    omega
  have hchildless : ¬ Token.HeadsGroup first rest position →
      (visit.depth : Int) = 1 + openings - closings - labelled := by
    intro hheads
    rw [hmade.headsGroup_iff, Bool.not_eq_true] at hheads
    rw [hheads, Bool.toNat_false] at hbalanced
    omega
  refine ⟨hhead, fun h => ⟨hmade.children_eq_empty hnode h, hchildless h⟩, fun hrow => ?_⟩
  have hlabelled : labelled = 0 := by
    have hbefore : ¬ [.opening, .opening] <:+: rest.take position := fun hinner =>
      hrow (hinner.trans (List.take_prefix position rest).isInfix)
    have hcount : (Builder.madeBelow first (rest.take position)).count .opening = 0 :=
      List.count_eq_zero.mpr (Builder.opening_notMem_madeBelow hbefore)
    rw [← hmade.tail_take_labels] at hcount
    exact congrArg Nat.cast hcount
  rw [hlabelled, Int.sub_zero] at hhead hchildless
  exact ⟨hhead, hchildless⟩

/-- Behind an empty group, the second of two openings is the head of a group and has a name below
it. Three openings and one closing come before the name, and one of the openings is a label. -/
theorem name_two_deep_below_opening :
    let first : Token := .name "f"
    let rest : List Token :=
      [.opening, .closing, .opening, .opening, .name "x", .closing, .closing, .name "y"]
    (ofTokens (first :: rest)).rootIndex? ≠ some 2 ∧
      (ofTokens (first :: rest)).node? 2 = some ⟨.name "x", #[]⟩ ∧
      Token.Makes first rest 4 2 ∧ ¬ Token.HeadsGroup first rest 4 ∧
      ∃ visit, (ofTokens (first :: rest)).visits[2]? = some visit ∧
        (visit.depth : Int) = 1 + 3 - 1 - 1 := by
  intro first rest
  have hroot : (ofTokens (first :: rest)).rootIndex? ≠ some 2 := by decide
  have hnode : (ofTokens (first :: rest)).node? 2 = some ⟨.name "x", #[]⟩ := rfl
  have hmakes : Token.Makes first rest 4 2 := ⟨rfl, rfl⟩
  have hhead : ¬ Token.HeadsGroup first rest 4 := by
    rintro ⟨before, hbefore, -, hnone⟩
    obtain rfl := Nat.succ.inj hbefore
    exact hnone 1 ⟨rfl, rfl⟩
  obtain ⟨position, visit, hunique, -, hvisit, -, -, hchildless, -⟩ :=
    depth_by_nesting first rest 2 _ hroot hnode
  obtain rfl := (hunique 4).mp hmakes
  exact ⟨hroot, hnode, hmakes, hhead, visit, hvisit, (hchildless hhead).2⟩

end Arena

end LambdaSyntax
