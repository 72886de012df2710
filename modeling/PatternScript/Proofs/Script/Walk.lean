import PatternScript.Script.Cursor

/-!
Contract: the walk with a cursor is the walk by recursion.

The loop over cursor moves keeps what is still to do in the frames above the cursor. `unwind` says
what that is: the siblings behind each frame below the start, from the inside out. One move of the
cursor takes one node from it, so the loop does what the recursion does.

Owns: the meaning of the frames of a cursor, and the equality of the two walks.
Does not own: what any particular visitor does.
-/

namespace PatternScript.Script

namespace Node

theorem size_pos (node : Node) : 0 < node.size := by
  cases node
  rw [size]
  omega

end Node

namespace Cursor

variable {σ : Type}

/-- The cursor a number of steps above; the root is above itself. -/
def origin : (depth : Nat) → Cursor → Cursor
  | depth + 1, ⟨_, frame :: above⟩ => origin depth ⟨frame.parent, above⟩
  | _, cursor => cursor

/-- The walk over everything that is still to be visited behind a cursor, up to `depth` frames. -/
def unwind (visit : Visitor σ) : (depth : Nat) → List Frame → σ → σ
  | depth + 1, frame :: above, state =>
      unwind visit depth above
        (Node.visitTrees visit (frame.parent :: above.map Frame.parent) frame.after state)
  | _, _, state => state

/-- The number of nodes that are still to be visited behind a cursor, up to `depth` frames. -/
def pending : (depth : Nat) → List Frame → Nat
  | depth + 1, frame :: above => Node.sizeAll frame.after + pending depth above
  | _, _ => 0

/-- What climbing finds: the next node to visit, which is the first of those still to be visited,
or the start of the walk if there is none. -/
inductive Climbed (visit : Visitor σ) (depth : Nat) (cursor : Cursor) :
    Cursor × Option Nat → Prop where
  | next {node : Node} {frames : List Frame} {level : Nat}
      (sameOrigin : origin level ⟨node, frames⟩ = origin depth cursor)
      (sameWalk : ∀ state, unwind visit depth cursor.frames state =
        unwind visit level frames (Node.visitTree visit (frames.map Frame.parent) node state))
      (fewer : node.size + pending level frames = pending depth cursor.frames) :
      Climbed visit depth cursor (⟨node, frames⟩, some level)
  | done (nothing : ∀ state, unwind visit depth cursor.frames state = state) :
      Climbed visit depth cursor (origin depth cursor, none)

theorem climbed_climb (visit : Visitor σ) (depth : Nat) (cursor : Cursor) :
    Climbed visit depth cursor (climb depth cursor) := by
  induction depth generalizing cursor with
  | zero => exact .done fun _ => rfl
  | succ depth inductionHypothesis =>
      obtain ⟨focus, frames⟩ := cursor
      match frames with
      | [] => exact .done fun _ => rfl
      | ⟨parent, next :: after⟩ :: above =>
          refine .next rfl (fun _ => rfl) ?_
          simp only [pending, Node.sizeAll]
          omega
      | ⟨parent, []⟩ :: above =>
          -- Nothing is left beside this node, so the climb is that of its parent.
          have upward := inductionHypothesis ⟨parent, above⟩
          change Climbed visit (depth + 1) _ (climb depth ⟨parent, above⟩)
          generalize climb depth ⟨parent, above⟩ = found at upward
          cases upward with
          | next sameOrigin sameWalk fewer =>
              refine .next sameOrigin sameWalk ?_
              simpa [pending, Node.sizeAll] using fewer
          | done nothing => exact .done nothing

/-- How the loop goes on from what climbing finds. -/
def onward (visit : Visitor σ) (limit : Nat) (state : σ) : Cursor × Option Nat → Cursor × σ
  | (next, some depth) => traverseUpTo visit limit depth next state
  | (last, none) => (last, state)

/-- The loop visits the node under the cursor and everything that is still to be visited behind it,
and ends where it started. -/
theorem traverseUpTo_eq (visit : Visitor σ) (limit depth : Nat) (node : Node)
    (frames : List Frame) (state : σ) (enough : node.size + pending depth frames ≤ limit) :
    traverseUpTo visit limit depth ⟨node, frames⟩ state =
      (origin depth ⟨node, frames⟩,
        unwind visit depth frames
          (Node.visitTree visit (frames.map Frame.parent) node state)) := by
  induction limit generalizing depth node frames state with
  | zero =>
      have positive := node.size_pos
      omega
  | succ limit inductionHypothesis =>
      obtain ⟨kind, role, range, children⟩ := node
      simp only [Node.size] at enough
      rw [Node.visitTree, traverseUpTo]
      have ancestors : Cursor.ancestors ⟨.mk kind role range children, frames⟩ =
          frames.map Frame.parent := rfl
      simp only [ancestors]
      -- After a node without children to look into, the walk goes on where the climb leads.
      have afterLeaf : ∀ state : σ,
          onward visit limit state (climb depth ⟨.mk kind role range children, frames⟩) =
          (origin depth ⟨.mk kind role range children, frames⟩,
            unwind visit depth frames state) := by
        intro state
        have climbed := climbed_climb visit depth ⟨.mk kind role range children, frames⟩
        generalize climb depth ⟨.mk kind role range children, frames⟩ = found at climbed
        cases climbed with
        | next sameOrigin sameWalk fewer =>
            rw [onward, inductionHypothesis _ _ _ _ (by simp only at fewer; omega), sameOrigin, sameWalk]
        | done nothing => rw [onward, nothing]
      generalize visit (frames.map Frame.parent) (.mk kind role range children) state = answer
      obtain ⟨action, seen⟩ := answer
      cases action with
      | skip => exact afterLeaf seen
      | descend =>
          cases children with
          | nil =>
              simp only [Node.visitTrees]
              exact afterLeaf seen
          | cons child after =>
              simp only [Node.sizeAll] at enough
              have below := inductionHypothesis (depth + 1) child
                (⟨.mk kind role range (child :: after), after⟩ :: frames) seen
                (by simp only [pending]; omega)
              simp only [firstChild?, Node.children]
              rw [below]
              simp only [origin, unwind, Node.visitTrees, List.map_cons]

/-- The walk with a cursor ends where it started, with the state of the walk by recursion. -/
theorem traverse_eq_visitTree (visit : Visitor σ) (start : Cursor) (state : σ) :
    start.traverse visit state =
      (start, start.focus.visitTree visit start.ancestors state) := by
  unfold traverse
  rw [traverseUpTo_eq visit start.focus.size 0 start.focus start.frames state (by simp [pending])]
  rfl

end Cursor

end PatternScript.Script
