import LambdaSyntax.Arena.Dump
import LambdaSyntax.Proofs.Descent
import LambdaSyntax.Proofs.Rows
import LambdaSyntax.Proofs.WellFormed

/-!
The printed form of a tree reads back.

A dump has a row for each node in pre-order, which shows the depth of the node by its indentation
and its label by the text behind. Depths and labels in this order, an *outline*, determine an
ordered tree: read from its last entry to the first, each entry adopts the trees directly behind it
that lie deeper (`Entry.adopt`). Since the builder lays nodes out in pre-order, the tree determines
the arena in turn.

All this needs labels whose texts hold no white space, and texts that tell what token they belong
to. The tokens of a line are such (`Token.Plain`); a name made by hand need not be.

* `readOutline_visitsFrom`: the outline of a tree reads back as the tree, whatever follows it.
* `Arena.ofOutline_visits`: the outline of an arena built from tokens determines the arena.
* `Arena.splitOn_dump`: a dump has one row for each node, and each row ends in a newline.
* `Arena.trimEnd_dump`: trimming a dump takes its last newline and nothing else.
* `dump_reads_back`: all of this for the trees of lines.
-/

namespace LambdaSyntax

/-! ### Outlines -/

/-- The depth of a node and its label. -/
structure Entry where
  depth : Nat
  label : Token
deriving DecidableEq, Repr

/-- What an outline shows of a visit. -/
def Visit.entry (visit : Visit) : Entry := ⟨visit.depth, visit.node.label⟩

/-- Puts a node in front of some trees, whose depths stand before them. The first of these trees, as
far as they lie deeper, become its children. -/
def Entry.adopt (entry : Entry) (forest : List (Nat × Tree)) : List (Nat × Tree) :=
  (entry.depth, .node entry.label ((forest.takeWhile (entry.depth < ·.1)).map Prod.snd)) ::
    forest.dropWhile (entry.depth < ·.1)

/-- The trees that an outline describes, each with its depth. -/
def readOutline (outline : List Entry) : List (Nat × Tree) :=
  outline.foldr Entry.adopt []

/-- The arena of the one tree that an outline describes; without entries it is empty. -/
def Arena.ofOutline (outline : List Entry) : Arena :=
  match readOutline outline with
  | [(_, tree)] => tree.toArena
  | _ => .empty

open LambdaSyntax.Tree

/-- An entry adopts all trees of a deeper level, up to the first tree that is not deeper. -/
theorem Entry.adopt_append {entry : Entry} {depth : Nat} (hdepth : entry.depth < depth)
    (children : List Tree) {forest : List (Nat × Tree)}
    (hforest : ∀ planted ∈ forest.head?, planted.1 ≤ entry.depth) :
    entry.adopt (children.map (depth, ·) ++ forest) =
      (entry.depth, .node entry.label children) :: forest := by
  have hchildren : ∀ planted ∈ children.map (depth, ·),
      decide (entry.depth < planted.1) = true := by
    simp [hdepth]
  have hbehind : ∀ planted ∈ forest.head?, decide (entry.depth < planted.1) = false :=
    fun planted h => decide_eq_false (Nat.not_lt.mpr (hforest planted h))
  obtain ⟨htake, hdrop⟩ := takeWhile_dropWhile_append hchildren hbehind
  rw [adopt, htake, hdrop]
  simp [Function.comp_def]

mutual
/-- **The outline of a tree reads back**, whatever follows it on the same level or above. -/
theorem readOutline_visitsFrom (depth start : Nat) {rest : List Entry}
    (hrest : ∀ planted ∈ (readOutline rest).head?, planted.1 ≤ depth) : ∀ tree : Tree,
      readOutline ((tree.visitsFrom depth start).map Visit.entry ++ rest) =
        (depth, tree) :: readOutline rest
  | .node label children => by
      have hdeeper : ∀ planted ∈ (readOutline rest).head?, planted.1 ≤ depth + 1 :=
        fun planted h => Nat.le_succ_of_le (hrest planted h)
      have hchildren := readOutline_visitsFromAll (depth + 1) (start + 1) hdeeper children
      rw [visitsFrom, List.map_cons, List.cons_append, readOutline, List.foldr_cons, ← readOutline,
        hchildren, Entry.adopt_append (Nat.lt_succ_self depth) children hrest]
      rfl

theorem readOutline_visitsFromAll (depth start : Nat) {rest : List Entry}
    (hrest : ∀ planted ∈ (readOutline rest).head?, planted.1 ≤ depth) : ∀ trees : List Tree,
      readOutline ((visitsFromAll depth start trees).map Visit.entry ++ rest) =
        trees.map (depth, ·) ++ readOutline rest
  | [] => rfl
  | tree :: trees => by
      have htrees := readOutline_visitsFromAll depth (start + tree.size) hrest trees
      have hbehind : ∀ planted ∈ (readOutline ((visitsFromAll depth (start + tree.size) trees).map
          Visit.entry ++ rest)).head?, planted.1 ≤ depth := by
        rw [htrees]
        cases trees with
        | nil => exact hrest
        | cons next trees => simp
      rw [visitsFromAll, List.map_append, List.append_assoc,
        readOutline_visitsFrom depth start hbehind tree, htrees]
      rfl
end

/-- **An outline determines the arena.** -/
theorem Arena.ofOutline_visits (tokens : List Token) :
    ofOutline ((ofTokens tokens).visits.map Visit.entry) = ofTokens tokens := by
  cases tokens with
  | nil => rfl
  | cons first rest =>
      rw [ofTokens_cons]
      have hread := @readOutline_visitsFrom 0 0 [] (by simp [readOutline])
        (.node first (readChildren rest).1)
      rw [List.append_nil, ← visits_toArena] at hread
      rw [ofOutline, hread]
      rfl

/-! ### Labels and their texts -/

namespace Token

/-- A token that a line can have: its name, if it is one, is an identifier. -/
def Plain (token : Token) : Prop :=
  ∀ text, token = .name text → isIdentifier text = true

/-- The token of a literal text. -/
def ofText (text : String) : Token :=
  if text = "\\" then .lambda
  else if text = "(" then .opening
  else if text = ")" then .closing
  else .name text

theorem Spelled.plain {tokens : List Token} (h : Spelled tokens) :
    ∀ token ∈ tokens, token.Plain := by
  rintro token hmem text rfl
  exact h.names text hmem

/-- The text of a token that a line can have tells the token. -/
theorem Plain.ofText_text {token : Token} (h : token.Plain) : ofText token.text = token := by
  cases token with
  | name text =>
      have hword := isAlphanum_of_isIdentifier (h text rfl)
      have hsign : text ≠ "\\" ∧ text ≠ "(" ∧ text ≠ ")" := by
        refine ⟨?_, ?_, ?_⟩
        · rintro rfl
          cases hword '\\' (by decide)
        · rintro rfl
          cases hword '(' (by decide)
        · rintro rfl
          cases hword ')' (by decide)
      simp [Token.text, ofText, hsign]
  | lambda => rfl
  | opening => rfl
  | closing => rfl

theorem Plain.not_blank {token : Token} (h : token.Plain) :
    ∀ c ∈ token.text.toList, Text.isBlank c = false := by
  cases token with
  | name text =>
      intro c hc
      exact Text.isBlank_eq_false_of_isAlphanum (isAlphanum_of_isIdentifier (h text rfl) c hc)
  | lambda => exact List.forall_mem_singleton.mpr (by decide)
  | opening => exact List.forall_mem_singleton.mpr (by decide)
  | closing => exact List.forall_mem_singleton.mpr (by decide)

theorem Plain.text_ne_nil {token : Token} (h : token.Plain) : token.text.toList ≠ [] := by
  cases token with
  | name text =>
      have hname := h text rfl
      rw [← String.ofList_toList (s := text), isIdentifier_iff] at hname
      obtain ⟨first, rest, htext, -, -⟩ := hname
      simp [Token.text, htext]
  | lambda => decide
  | opening => decide
  | closing => decide

end Token

/-- The labels of an arena built from tokens are some of these tokens. -/
theorem Arena.label_mem_of_mem_visits {tokens : List Token} {visit : Visit}
    (h : visit ∈ (ofTokens tokens).visits) : visit.node.label ∈ tokens := by
  cases tokens with
  | nil => cases h
  | cons first rest =>
      rw [ofTokens_cons, visits_toArena] at h
      have hlabel : visit.node.label ∈ (Tree.node first (readChildren rest).1).labels := by
        rw [← map_label_layout 0, ← nodes_visitsFrom 0, List.map_map]
        exact List.mem_map_of_mem h
      rcases List.mem_cons.mp hlabel with hroot | hbelow
      · rw [hroot]
        exact List.mem_cons_self
      · have hfilter := (labelsAll_readChildren_sublist rest).subset (List.mem_append_left _ hbelow)
        exact List.mem_cons_of_mem first (List.mem_of_mem_filter hfilter)

/-! ### Rows -/

/-- The row of a node in a dump, without its newline. -/
def Visit.row (visit : Visit) : List Char :=
  List.replicate (2 * visit.depth) ' ' ++ visit.node.label.text.toList

/-- Reads a row: half the number of its leading spaces is the depth, and what follows is the text of
the label. -/
def Entry.ofRow (row : List Char) : Entry :=
  ⟨(row.takeWhile (· == ' ')).length / 2, Token.ofText (String.ofList (row.dropWhile (· == ' ')))⟩

namespace Visit

theorem toList_line (visit : Visit) : visit.line.toList = visit.row ++ ['\n'] := by
  simp [line, row]

section Plain

variable {visit : Visit} (h : visit.node.label.Plain)
include h

/-- A row reads back. -/
theorem ofRow_row : Entry.ofRow visit.row = visit.entry := by
  have hspaces : ∀ c ∈ List.replicate (2 * visit.depth) ' ', (c == ' ') = true := by
    simp
  have htext : ∀ c ∈ visit.node.label.text.toList.head?, (c == ' ') = false := by
    intro c hc
    rw [beq_eq_false_iff_ne]
    rintro rfl
    exact Text.not_mem_of_isBlank (by decide) h.not_blank (List.mem_of_mem_head? hc)
  obtain ⟨htake, hdrop⟩ := takeWhile_dropWhile_append hspaces htext
  rw [Entry.ofRow, row, htake, hdrop, String.ofList_toList, h.ofText_text]
  simp [entry]

theorem newline_not_mem_row : '\n' ∉ visit.row := by
  intro hmem
  rcases List.mem_append.mp hmem with hspace | htext
  · exact absurd (List.eq_of_mem_replicate hspace) (by decide)
  · exact Text.not_mem_of_isBlank (by decide) h.not_blank htext

/-- A row does not end in white space. -/
theorem exists_row_eq_concat : ∃ before c, visit.row = before ++ [c] ∧ Text.isBlank c = false := by
  obtain ⟨before, c, htext⟩ := (List.eq_nil_or_concat' _).resolve_left h.text_ne_nil
  refine ⟨List.replicate (2 * visit.depth) ' ' ++ before, c, ?_, h.not_blank c (by simp [htext])⟩
  rw [row, htext, List.append_assoc]

end Plain

end Visit

/-! ### Dumps -/

namespace Arena

theorem toList_dump (arena : Arena) :
    arena.dump.toList = (arena.visits.map Visit.row).flatMap (· ++ ['\n']) := by
  simp [dump, List.flatMap_map, Visit.toList_line]

/-- A tree has nodes unless it has no tokens. -/
theorem visits_ofTokens_ne_nil {tokens : List Token} (hne : tokens ≠ []) :
    (ofTokens tokens).visits ≠ [] := by
  obtain ⟨first, rest, rfl⟩ := List.exists_cons_of_ne_nil hne
  rw [ofTokens_cons, visits_toArena, visitsFrom]
  exact List.cons_ne_nil _ _

section Spelled

variable {tokens : List Token} (h : Token.Spelled tokens)
include h

theorem plain_of_mem_visits : ∀ visit ∈ (ofTokens tokens).visits, visit.node.label.Plain :=
  fun _ hvisit => h.plain _ (label_mem_of_mem_visits hvisit)

/-- **A dump has one row for each node**, and each row ends in a newline. -/
theorem splitOn_dump :
    (ofTokens tokens).dump.toList.splitOn '\n' =
      (ofTokens tokens).visits.map Visit.row ++ [[]] := by
  rw [toList_dump]
  refine Text.splitOn_flatMap_newline fun row hrow => ?_
  obtain ⟨visit, hvisit, rfl⟩ := List.mem_map.mp hrow
  exact Visit.newline_not_mem_row (plain_of_mem_visits h visit hvisit)

/-- The rows of a dump read back as the outline of the tree. -/
theorem ofRow_rows :
    ((ofTokens tokens).visits.map Visit.row).map Entry.ofRow =
      (ofTokens tokens).visits.map Visit.entry := by
  rw [List.map_map]
  exact List.map_congr_left fun visit hvisit => Visit.ofRow_row (plain_of_mem_visits h visit hvisit)

/-- **Trimming a dump takes its last newline and nothing else.** -/
theorem trimEnd_dump (hne : tokens ≠ []) :
    (ofTokens tokens).dump.toList = Text.trimEnd (ofTokens tokens).dump.toList ++ ['\n'] := by
  obtain ⟨visits, last, hlast⟩ :=
    (List.eq_nil_or_concat' _).resolve_left (visits_ofTokens_ne_nil hne)
  have hplain := plain_of_mem_visits h last (by simp [hlast])
  obtain ⟨before, c, hrow, hc⟩ := Visit.exists_row_eq_concat hplain
  have hdump : (ofTokens tokens).dump.toList =
      (((visits.map Visit.row).flatMap (· ++ ['\n']) ++ before) ++ [c]) ++ ['\n'] := by
    simp [toList_dump, hlast, hrow]
  rw [hdump, Text.trimEnd_append_of_blank (List.forall_mem_singleton.mpr (by decide)),
    Text.trimEnd_concat_of_not_blank hc]

end Spelled

end Arena

/-- **Dumps read back.** The dump of the tree of a line has one row for each node, which ends in a
newline. The rows read back as the depths and labels of the nodes in pre-order, and these as the
whole tree, so that the dumps of two lines are equal exactly when their trees are. Trimming a dump
takes its last newline and nothing else. -/
theorem dump_reads_back :
    (∀ line tokens, tokenize line = .ok tokens →
      ∃ rows, (Arena.ofTokens tokens).dump.toList.splitOn '\n' = rows ++ [[]] ∧
        rows.length = (Arena.ofTokens tokens).size ∧
        rows.map Entry.ofRow = (Arena.ofTokens tokens).visits.map Visit.entry ∧
        Arena.ofOutline (rows.map Entry.ofRow) = Arena.ofTokens tokens ∧
        (Arena.ofTokens tokens).dump.toList =
          Text.trimEnd (Arena.ofTokens tokens).dump.toList ++ if tokens = [] then [] else ['\n']) ∧
    ∀ line line' tokens tokens', tokenize line = .ok tokens → tokenize line' = .ok tokens' →
      ((Arena.ofTokens tokens).dump = (Arena.ofTokens tokens').dump ↔
        Arena.ofTokens tokens = Arena.ofTokens tokens') := by
  constructor
  · intro line tokens h
    have hspelled := (Token.wellFormed_of_tokenize h).toSpelled
    refine ⟨_, Arena.splitOn_dump hspelled, ?_, Arena.ofRow_rows hspelled, ?_, ?_⟩
    · rw [List.length_map, Arena.length_visits_ofTokens]
    · rw [Arena.ofRow_rows hspelled, Arena.ofOutline_visits]
    · by_cases hnil : tokens = []
      · subst hnil
        rfl
      · rw [if_neg hnil]
        exact Arena.trimEnd_dump hspelled hnil
  · intro line line' tokens tokens' h h'
    have hspelled := (Token.wellFormed_of_tokenize h).toSpelled
    have hspelled' := (Token.wellFormed_of_tokenize h').toSpelled
    constructor
    · intro hdump
      have hrows : (Arena.ofTokens tokens).visits.map Visit.row =
          (Arena.ofTokens tokens').visits.map Visit.row := by
        have hsplit := Arena.splitOn_dump hspelled
        rw [hdump, Arena.splitOn_dump hspelled'] at hsplit
        exact (List.append_cancel_right hsplit).symm
      rw [← Arena.ofOutline_visits tokens, ← Arena.ofRow_rows hspelled, hrows,
        Arena.ofRow_rows hspelled', Arena.ofOutline_visits]
    · intro hequal
      rw [hequal]

/-- The tree of `\x.f()` with a space in the brackets: the empty group gives no row, and the dump is
that of `\x.f`. -/
theorem empty_group_leaves_no_row :
    let tree := Arena.ofTokens
      [.lambda, .name "x", .opening, .name "f", .opening, .closing, .closing]
    let tree' := Arena.ofTokens [.lambda, .name "x", .opening, .name "f", .closing]
    (tokenize ['\\', 'x', '.', 'f', '(', ' ', ')'] =
        .ok [.lambda, .name "x", .opening, .name "f", .opening, .closing, .closing] ∧
      ∃ rows, tree.dump.toList.splitOn '\n' = rows ++ [[]] ∧ rows.length = tree.size ∧
        rows.map Entry.ofRow = tree.visits.map Visit.entry ∧
        Arena.ofOutline (rows.map Entry.ofRow) = tree ∧
        tree.dump.toList = Text.trimEnd tree.dump.toList ++ ['\n']) ∧
    (tokenize ['\\', 'x', '.', 'f'] = .ok [.lambda, .name "x", .opening, .name "f", .closing] ∧
      (tree.dump = tree'.dump ↔ tree = tree')) := by
  intro tree tree'
  have haccepted : tokenize ['\\', 'x', '.', 'f', '(', ' ', ')'] =
      .ok [.lambda, .name "x", .opening, .name "f", .opening, .closing, .closing] := rfl
  have haccepted' : tokenize ['\\', 'x', '.', 'f'] =
      .ok [.lambda, .name "x", .opening, .name "f", .closing] := rfl
  exact ⟨⟨haccepted, dump_reads_back.1 _ _ haccepted⟩,
    haccepted', dump_reads_back.2 _ _ _ _ haccepted haccepted'⟩

end LambdaSyntax
