import LambdaSyntax.Arena.Basic

/-!
The tree that a token sequence describes.

The first token labels the root, whatever it is. Every further token belongs to the innermost open
group. An opening starts a group, which gets its node only from the token after it: that token, of
whatever kind, labels a new child whose own group is then the innermost. An opening that is closed
at once gives no node. A closing ends the innermost group, and any other token is a child without
children. Once the root's own group is closed the tree is complete, and the tokens that are left
have no effect.

The builder takes any token sequence. It keeps the indices of the nodes whose groups are open in a
list, so the nesting is as deep as the tokens say.
-/

namespace LambdaSyntax

/-- A tree under construction. -/
structure Builder where
  /-- The nodes made so far. -/
  arena : Arena
  /-- The nodes whose groups are open, the innermost first. -/
  openNodes : List Nat
  /-- Whether the token before was an opening, so that the next one heads a group. -/
  awaitingHead : Bool
deriving DecidableEq, Repr

namespace Builder

/-- The tree of one token, the group of its root open. -/
def start (label : Token) : Builder :=
  ⟨⟨#[⟨label, #[]⟩], some 0⟩, [0], false⟩

/-- Places one more token in the tree. -/
def step (builder : Builder) (token : Token) : Builder :=
  match builder with
  | ⟨arena, [], awaitingHead⟩ => ⟨arena, [], awaitingHead⟩
  | ⟨arena, parent :: outer, true⟩ =>
    if token = .closing then
      ⟨arena, parent :: outer, false⟩
    else
      let head := arena.size
      ⟨arena.attach parent token, head :: parent :: outer, false⟩
  | ⟨arena, parent :: outer, false⟩ =>
    match token with
    | .opening => ⟨arena, parent :: outer, true⟩
    | .closing => ⟨arena, outer, false⟩
    | leaf => ⟨arena.attach parent leaf, parent :: outer, false⟩

/-- The builder after the tokens that follow the first one. -/
def run (first : Token) (rest : List Token) : Builder :=
  rest.foldl step (start first)

end Builder

/-- The tree of a token sequence; no tokens give the empty tree. -/
def Arena.ofTokens : List Token → Arena
  | [] => .empty
  | first :: rest => (Builder.run first rest).arena

end LambdaSyntax
