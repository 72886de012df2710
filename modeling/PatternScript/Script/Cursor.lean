import PatternScript.Script.Node

/-!
Contract: walking over a syntax tree.

A cursor stands on one node of a tree and knows the way back up. The walk visits the node it starts
on and everything below it, each node before its children, and lets the visitor leave out what is
below a node. It is a loop over cursor moves and so does not nest as deeply as the tree;
`visitTree` is the same walk by recursion.

Owns: cursors, their moves, and both walks.
Does not own: what is done at a node.
-/

namespace PatternScript.Script

/-- What a visitor wants after it has seen a node. -/
inductive Action where
  /-- Go on with the children of the node. -/
  | descend
  /-- Leave out everything below the node. -/
  | skip
deriving DecidableEq, Repr

/-- A visitor with a state: it sees a node and the nodes above it, the nearest first. -/
abbrev Visitor (σ : Type) := List Node → Node → σ → Action × σ

/-- One step of the way from a node up to the root. -/
structure Frame where
  /-- The node above. -/
  parent : Node
  /-- The siblings behind. -/
  after : List Node

/-- A place in a tree. -/
structure Cursor where
  focus : Node
  frames : List Frame

namespace Cursor

/-- The root of a tree. -/
def ofRoot (root : Node) : Cursor :=
  ⟨root, []⟩

/-- The nodes above, the nearest first. -/
def ancestors (cursor : Cursor) : List Node :=
  cursor.frames.map Frame.parent

/-- The first child. -/
def firstChild? (cursor : Cursor) : Option Cursor :=
  match cursor.focus.children with
  | [] => none
  | child :: after => some ⟨child, ⟨cursor.focus, after⟩ :: cursor.frames⟩

/-- The sibling behind. -/
def nextSibling? (cursor : Cursor) : Option Cursor :=
  match cursor.frames with
  | ⟨parent, next :: after⟩ :: above => some ⟨next, ⟨parent, after⟩ :: above⟩
  | _ => none

/-- The node above. -/
def parent? (cursor : Cursor) : Option Cursor :=
  match cursor.frames with
  | frame :: above => some ⟨frame.parent, above⟩
  | [] => none

/-- Climbs until there is a sibling behind, at most `depth` steps. Without one it ends where the
climb ends. -/
def climb : (depth : Nat) → Cursor → Cursor × Option Nat
  | 0, cursor => (cursor, none)
  | depth + 1, cursor =>
      match cursor.nextSibling? with
      | some next => (next, some (depth + 1))
      | none =>
          match cursor.parent? with
          | some above => climb depth above
          | none => (cursor, none)

/-- The walk, for at most `limit` visits, from a cursor `depth` steps below the start. -/
def traverseUpTo {σ : Type} (visit : Visitor σ) :
    (limit depth : Nat) → Cursor → σ → Cursor × σ
  | 0, _, cursor, state => (cursor, state)
  | limit + 1, depth, cursor, state =>
      let (action, state) := visit cursor.ancestors cursor.focus state
      match action, cursor.firstChild? with
      | .descend, some child => traverseUpTo visit limit (depth + 1) child state
      | _, _ =>
          match climb depth cursor with
          | (next, some depth) => traverseUpTo visit limit depth next state
          | (last, none) => (last, state)

end Cursor

namespace Node

mutual

/-- The number of nodes of a tree. -/
def size : Node → Nat
  | .mk _ _ _ children => 1 + sizeAll children

/-- The number of nodes of some trees. -/
def sizeAll : List Node → Nat
  | [] => 0
  | node :: rest => size node + sizeAll rest

end

mutual

/-- The walk by recursion: the node, then its children from left to right unless the visitor leaves
them out. -/
def visitTree {σ : Type} (visit : Visitor σ) (ancestors : List Node) : Node → σ → σ
  | .mk kind role range children, state =>
      let node := Node.mk kind role range children
      match visit ancestors node state with
      | (.descend, state) => visitTrees visit (node :: ancestors) children state
      | (.skip, state) => state

/-- The walk over some trees, one after the other. -/
def visitTrees {σ : Type} (visit : Visitor σ) (ancestors : List Node) : List Node → σ → σ
  | [], state => state
  | node :: rest, state =>
      visitTrees visit ancestors rest (visitTree visit ancestors node state)

end

end Node

namespace Cursor

/-- The walk over the tree below a cursor: where it ends, and the state of the visitor. It makes at
most one visit for each node. -/
def traverse {σ : Type} (visit : Visitor σ) (start : Cursor) (state : σ) : Cursor × σ :=
  traverseUpTo visit start.focus.size 0 start state

end Cursor

end PatternScript.Script
