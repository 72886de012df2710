import PatternScript.Proofs.Script.Walk

/-!
Contract: the calls of a visitor that a walk makes.

A walk shows its visitor one place after the other, each with the state the visitor has reached. The
walk by recursion says which places these are. The loop over cursor moves is told here turn by turn,
without a bound on their number: it shows the node under the cursor, goes down if it may, and
otherwise climbs until there is a sibling behind or it is back where it started. A climb from the last
child ends where the climb from its parent starts, so the two agree from the inside out.

Owns: the calls of both walks, that the loop ends, and what the state of a visitor goes through.
Does not own: what any particular visitor does.
-/

namespace PatternScript.Script

variable {σ : Type}

/-- One call of a visitor: the place it is shown, and the state it is given. -/
structure Visit (σ : Type) where
  place : Cursor
  state : σ

/-! ## The calls of the walk by recursion -/

namespace Node

mutual

/-- The calls for a tree below some frames: the one for the node, then those for its children from
left to right unless the visitor leaves them out. -/
def visits (visit : Visitor σ) (frames : List Frame) : Node → σ → List (Visit σ)
  | .mk kind role range children, state =>
      let node := Node.mk kind role range children
      ⟨⟨node, frames⟩, state⟩ ::
        match visit (frames.map Frame.parent) node state with
        | (.descend, seen) => visitsAll visit node frames children seen
        | (.skip, _) => []

/-- The calls for some children of a node, one after the other. -/
def visitsAll (visit : Visitor σ) (parent : Node) (frames : List Frame) :
    List Node → σ → List (Visit σ)
  | [], _ => []
  | node :: rest, state =>
      visits visit (⟨parent, rest⟩ :: frames) node state ++
        visitsAll visit parent frames rest
          (visitTree visit (parent :: frames.map Frame.parent) node state)

end

end Node

namespace Cursor

/-- The calls for the tree under a cursor. -/
def visits (visit : Visitor σ) (start : Cursor) (state : σ) : List (Visit σ) :=
  start.focus.visits visit start.frames state

/-- The other place is the first one, or a child of a place under it. -/
inductive Above (start : Cursor) : Cursor → Prop where
  | self : Above start start
  | child {place : Cursor} {before after : List Node} {node : Node} (above : Above start place)
      (children : place.focus.children = before ++ node :: after) :
      Above start ⟨node, ⟨place.focus, after⟩ :: place.frames⟩

theorem Above.trans {first second third : Cursor} (upper : first.Above second)
    (lower : second.Above third) : first.Above third := by
  induction lower with
  | self => exact upper
  | child _ children inductionHypothesis => exact .child inductionHypothesis children

end Cursor

namespace Node

mutual

/-- The places of the calls for a tree are in it. -/
theorem above_of_mem_visits (visit : Visitor σ) :
    ∀ (node : Node) (frames : List Frame) (state : σ), ∀ call ∈ node.visits visit frames state,
      Cursor.Above ⟨node, frames⟩ call.place
  | .mk kind role range children, frames, state, call, member => by
      rw [visits] at member
      rcases List.mem_cons.mp member with rfl | below
      · exact .self
      · split at below
        · exact above_of_mem_visitsAll visit children _ frames _ [] rfl call below
        · exact absurd below List.not_mem_nil

theorem above_of_mem_visitsAll (visit : Visitor σ) :
    ∀ (nodes : List Node) (parent : Node) (frames : List Frame) (state : σ) (before : List Node),
      parent.children = before ++ nodes → ∀ call ∈ visitsAll visit parent frames nodes state,
        Cursor.Above ⟨parent, frames⟩ call.place
  | [], _, _, _, _, _, call, member => by
      rw [visitsAll] at member
      exact absurd member List.not_mem_nil
  | node :: rest, parent, frames, state, before, children, call, member => by
      rw [visitsAll] at member
      rcases List.mem_append.mp member with inFirst | inRest
      · have first : Cursor.Above ⟨parent, frames⟩ ⟨node, ⟨parent, rest⟩ :: frames⟩ :=
          .child .self children
        exact first.trans (above_of_mem_visits visit node _ state call inFirst)
      · exact above_of_mem_visitsAll visit rest parent frames _ (before ++ [node]) (by simp [children])
          call inRest

end

end Node

/-! ## The calls of the loop -/

/-- Where the loop of a walk stands, a number of steps below its start: it is about to show the node
under the cursor, or on the way up from it. -/
inductive Stage (σ : Type) where
  | visiting (depth : Nat) (cursor : Cursor) (state : σ)
  | climbing (depth : Nat) (cursor : Cursor) (state : σ)

namespace Stage

/-- The state of the visitor. -/
def state : Stage σ → σ
  | .visiting _ _ state | .climbing _ _ state => state

/-- One turn of the loop. There is none once nothing is left to climb. A cursor without a parent
stays. -/
def next? (visit : Visitor σ) : Stage σ → Option (Stage σ)
  | .visiting depth cursor state =>
      match visit cursor.ancestors cursor.focus state, cursor.firstChild? with
      | (.descend, seen), some child => some (.visiting (depth + 1) child seen)
      | (_, seen), _ => some (.climbing depth cursor seen)
  | .climbing 0 _ _ => none
  | .climbing (depth + 1) cursor state =>
      match cursor.nextSibling? with
      | some next => some (.visiting (depth + 1) next state)
      | none => some (.climbing depth (cursor.parent?.getD cursor) state)

/-- The call that is made in a turn. -/
def call? : Stage σ → Option (Visit σ)
  | .visiting _ cursor state => some ⟨cursor, state⟩
  | .climbing _ _ _ => none

/-- The loop with some children of a node still to be shown. -/
def toShow (depth : Nat) (parent : Node) (frames : List Frame) (state : σ) : List Node → Stage σ
  | [] => .climbing depth ⟨parent, frames⟩ state
  | node :: rest => .visiting (depth + 1) ⟨node, ⟨parent, rest⟩ :: frames⟩ state

section Turns

variable {visit : Visitor σ} {depth : Nat} {node parent : Node} {frames : List Frame} {state seen : σ}

theorem next?_of_descend
    (answer : visit (frames.map Frame.parent) node state = (.descend, seen)) :
    next? visit (.visiting depth ⟨node, frames⟩ state) =
      some (toShow depth node frames seen node.children) := by
  obtain ⟨kind, role, range, children⟩ := node
  simp only [next?, Cursor.ancestors, answer]
  cases children <;> rfl

theorem next?_of_skip
    (answer : visit (frames.map Frame.parent) node state = (.skip, seen)) :
    next? visit (.visiting depth ⟨node, frames⟩ state) =
      some (.climbing depth ⟨node, frames⟩ seen) := by
  simp only [next?, Cursor.ancestors, answer]

/-- From a node whose siblings in front have been shown, the loop goes on with those behind. -/
theorem next?_climbing (rest : List Node) :
    next? visit (.climbing (depth + 1) ⟨node, ⟨parent, rest⟩ :: frames⟩ state) =
      some (toShow depth parent frames state rest) := by
  cases rest <;> rfl

end Turns

/-- The loop comes to an end from a stage: the calls it makes until then, the place where the cursor
is left, and the last state of the visitor. -/
inductive Ends (visit : Visitor σ) : Stage σ → List (Visit σ) → Cursor × σ → Prop where
  | stop {cursor : Cursor} {state : σ} : Ends visit (.climbing 0 cursor state) [] (cursor, state)
  | turn {stage after : Stage σ} {calls : List (Visit σ)} {final : Cursor × σ}
      (next : stage.next? visit = some after) (rest : Ends visit after calls final) :
      Ends visit stage (stage.call?.toList ++ calls) final

/-- The loop has one way to go. -/
theorem Ends.unique {visit : Visitor σ} {stage : Stage σ} {calls calls' : List (Visit σ)}
    {final final' : Cursor × σ} (ends : Ends visit stage calls final)
    (ends' : Ends visit stage calls' final') : calls = calls' ∧ final = final' := by
  induction ends generalizing calls' final' with
  | stop =>
      cases ends' with
      | stop => exact ⟨rfl, rfl⟩
      | turn next _ => simp [next?] at next
  | turn next _ inductionHypothesis =>
      cases ends' with
      | stop => simp [next?] at next
      | turn next' rest' =>
          obtain rfl := Option.some.inj (next.symm.trans next')
          obtain ⟨rfl, rfl⟩ := inductionHypothesis rest'
          exact ⟨rfl, rfl⟩

mutual

/-- The loop shows a tree the way the recursion does, and then climbs from it. -/
theorem ends_visits (visit : Visitor σ) :
    ∀ (node : Node) (depth : Nat) (frames : List Frame) (state : σ) {calls : List (Visit σ)}
      {final : Cursor × σ},
      Ends visit (.climbing depth ⟨node, frames⟩
        (node.visitTree visit (frames.map Frame.parent) state)) calls final →
      Ends visit (.visiting depth ⟨node, frames⟩ state) (node.visits visit frames state ++ calls) final
  | .mk kind role range children, depth, frames, state, calls, final, after => by
      rw [Node.visitTree] at after
      rw [Node.visits]
      cases answer : visit (frames.map Frame.parent) (.mk kind role range children) state with
      | mk action seen =>
      rw [answer] at after
      cases action with
      | skip => exact .turn (next?_of_skip answer) after
      | descend =>
          exact .turn (next?_of_descend answer) (ends_visitsAll visit children _ depth frames seen after)

theorem ends_visitsAll (visit : Visitor σ) :
    ∀ (nodes : List Node) (parent : Node) (depth : Nat) (frames : List Frame) (state : σ)
      {calls : List (Visit σ)} {final : Cursor × σ},
      Ends visit (.climbing depth ⟨parent, frames⟩
        (Node.visitTrees visit (parent :: frames.map Frame.parent) nodes state)) calls final →
      Ends visit (toShow depth parent frames state nodes)
        (Node.visitsAll visit parent frames nodes state ++ calls) final
  | [], _, _, _, _, _, _, after => after
  | node :: rest, parent, depth, frames, state, calls, final, after => by
      rw [Node.visitTrees] at after
      rw [Node.visitsAll, List.append_assoc]
      refine ends_visits visit node (depth + 1) (⟨parent, rest⟩ :: frames) state ?_
      exact .turn (next?_climbing rest) (ends_visitsAll visit rest parent depth frames _ after)

end

end Stage

/-! ## The calls of the walk that is run -/

/-- What a visitor sees of a call: the nodes above, the node, and its own state. -/
def Visit.shown (call : Visit σ) : List Node × Node × σ :=
  (call.place.ancestors, call.place.focus, call.state)

/-- The visitor that also keeps what it is shown. -/
def Visitor.logged (visit : Visitor σ) : Visitor (σ × List (List Node × Node × σ)) :=
  fun ancestors node state =>
    let answer := visit ancestors node state.1
    (answer.1, answer.2, state.2 ++ [(ancestors, node, state.1)])

namespace Node

mutual

theorem visitTree_logged (visit : Visitor σ) :
    ∀ (node : Node) (frames : List Frame) (state : σ) (log : List (List Node × Node × σ)),
      node.visitTree visit.logged (frames.map Frame.parent) (state, log) =
        (node.visitTree visit (frames.map Frame.parent) state,
          log ++ (node.visits visit frames state).map Visit.shown)
  | .mk kind role range children, frames, state, log => by
      rw [visitTree, visitTree, visits]
      simp only [Visitor.logged]
      cases visit (frames.map Frame.parent) (.mk kind role range children) state with
      | mk action seen =>
      cases action with
      | skip => rfl
      | descend =>
          simp only
          rw [visitTrees_logged visit children, List.append_assoc]
          rfl

theorem visitTrees_logged (visit : Visitor σ) :
    ∀ (nodes : List Node) (parent : Node) (frames : List Frame) (state : σ)
      (log : List (List Node × Node × σ)),
      visitTrees visit.logged (parent :: frames.map Frame.parent) nodes (state, log) =
        (visitTrees visit (parent :: frames.map Frame.parent) nodes state,
          log ++ (visitsAll visit parent frames nodes state).map Visit.shown)
  | [], _, _, _, _ => by simp [visitTrees, visitsAll]
  | node :: rest, parent, frames, state, log => by
      have first := visitTree_logged visit node (⟨parent, rest⟩ :: frames) state log
      rw [List.map_cons] at first
      rw [visitTrees, visitTrees, visitsAll, first, visitTrees_logged visit rest, List.map_append,
        List.append_assoc]

end

end Node

namespace Cursor

/-- The loop comes to an end, after the calls of the recursion and where the walk ends. -/
theorem ends_traverse (visit : Visitor σ) (start : Cursor) (state : σ) :
    Stage.Ends visit (.visiting 0 start state) (start.visits visit state)
      (start.traverse visit state) := by
  have stopped := Stage.ends_visits visit start.focus 0 start.frames state .stop
  rw [traverse_eq_visitTree]
  rwa [List.append_nil] at stopped

/-- The walk with a cursor is the walk by recursion, from every place and for every visitor. Its loop
comes to an end, after the calls of the recursion in the same order and with the same states, and with
the cursor back at the start. No call is for a place that is not under the start. -/
theorem traverse_makes_visits (visit : Visitor σ) (start : Cursor) (state : σ) :
    let last := start.focus.visitTree visit start.ancestors state
    (∀ calls final, Stage.Ends visit (.visiting 0 start state) calls final ↔
      calls = start.visits visit state ∧ final = (start, last)) ∧
    start.traverse visit state = (start, last) ∧
    start.traverse visit.logged (state, []) =
      (start, last, (start.visits visit state).map Visit.shown) ∧
    ∀ call ∈ start.visits visit state, start.Above call.place := by
  intro last
  have ends := ends_traverse visit start state
  rw [traverse_eq_visitTree] at ends
  refine ⟨?_, traverse_eq_visitTree visit start state, ?_,
    Node.above_of_mem_visits visit start.focus start.frames state⟩
  · intro calls final
    constructor
    · exact fun other => other.unique ends
    · rintro ⟨rfl, rfl⟩
      exact ends
  · rw [traverse_eq_visitTree]
    exact congrArg (Prod.mk start) (Node.visitTree_logged visit start.focus start.frames state [])

end Cursor

/-! ## What goes through the calls -/

/-- The state of a visitor goes through some calls: each is made with the state that the one before it
has left. -/
inductive Threaded (visit : Visitor σ) : σ → List (Visit σ) → σ → Prop where
  | nil {state : σ} : Threaded visit state [] state
  | cons {place : Cursor} {state last : σ} {calls : List (Visit σ)}
      (rest : Threaded visit (visit place.ancestors place.focus state).2 calls last) :
      Threaded visit state (⟨place, state⟩ :: calls) last

theorem Threaded.upTo {visit : Visitor σ} {first last : σ} {before after : List (Visit σ)}
    {call : Visit σ} (threaded : Threaded visit first (before ++ call :: after) last) :
    Threaded visit first before call.state := by
  induction before generalizing first with
  | nil =>
      cases threaded with
      | cons _ => exact .nil
  | cons earlier rest inductionHypothesis =>
      cases threaded with
      | cons more => exact .cons (inductionHypothesis more)

namespace Stage

/-- What a turn of the loop can do. -/
inductive Turned (visit : Visitor σ) : Stage σ → Stage σ → Prop where
  | down {depth : Nat} {cursor child : Cursor} {state : σ}
      (answer : (visit cursor.ancestors cursor.focus state).1 = .descend)
      (found : cursor.firstChild? = some child) :
      Turned visit (.visiting depth cursor state)
        (.visiting (depth + 1) child (visit cursor.ancestors cursor.focus state).2)
  | back {depth : Nat} {cursor : Cursor} {state : σ} :
      Turned visit (.visiting depth cursor state)
        (.climbing depth cursor (visit cursor.ancestors cursor.focus state).2)
  | across {depth : Nat} {cursor next : Cursor} {state : σ}
      (found : cursor.nextSibling? = some next) :
      Turned visit (.climbing (depth + 1) cursor state) (.visiting (depth + 1) next state)
  | up {depth : Nat} {cursor : Cursor} {state : σ} :
      Turned visit (.climbing (depth + 1) cursor state)
        (.climbing depth (cursor.parent?.getD cursor) state)

theorem turned_of_next? {visit : Visitor σ} {stage after : Stage σ}
    (next : stage.next? visit = some after) : Turned visit stage after := by
  cases stage with
  | visiting depth cursor state =>
      simp only [next?] at next
      split at next
      case h_1 child answer found =>
          obtain rfl := Option.some.inj next
          have down : Turned visit (.visiting depth cursor state) _ := .down (by rw [answer]) found
          rwa [answer] at down
      case h_2 answer _ =>
          obtain rfl := Option.some.inj next
          have back : Turned visit (.visiting depth cursor state) _ := .back
          rwa [answer] at back
  | climbing depth cursor state =>
      cases depth with
      | zero => simp [next?] at next
      | succ depth =>
          simp only [next?] at next
          split at next
          case h_1 found =>
              obtain rfl := Option.some.inj next
              exact .across found
          case h_2 =>
              obtain rfl := Option.some.inj next
              exact .up

/-- The calls of the loop are made with the states that the visitor goes through. -/
theorem Ends.threaded {visit : Visitor σ} {stage : Stage σ} {calls : List (Visit σ)}
    {final : Cursor × σ} (ends : Ends visit stage calls final) :
    Threaded visit stage.state calls final.2 := by
  induction ends with
  | stop => exact .nil
  | turn next _ inductionHypothesis =>
      cases turned_of_next? next with
      | down | back => exact .cons inductionHypothesis
      | across | up => exact inductionHypothesis

/-- The nodes above the cursor. -/
def ancestors : Stage σ → List Node
  | .visiting _ cursor _ | .climbing _ cursor _ => cursor.ancestors

section LookedInto

variable {visit : Visitor σ} {lookedInto : Node → Prop}
  (descends : ∀ ancestors node state, (visit ancestors node state).1 = .descend → lookedInto node)

include descends

/-- A turn puts a node above the cursor only if the visitor wants to look into it. -/
theorem Turned.ancestors_lookedInto {stage after : Stage σ} (turned : Turned visit stage after)
    (above : ∀ node ∈ stage.ancestors, lookedInto node) :
    ∀ node ∈ after.ancestors, lookedInto node := by
  cases turned with
  | @down depth cursor child state answer found =>
      have ancestors : child.ancestors = cursor.focus :: cursor.ancestors := by
        unfold Cursor.firstChild? at found
        split at found
        · simp at found
        · obtain rfl := Option.some.inj found
          rfl
      simp only [Stage.ancestors, ancestors, List.mem_cons, forall_eq_or_imp] at *
      exact ⟨descends _ _ state answer, above⟩
  | back => exact above
  | @across depth cursor next state found =>
      have ancestors : next.ancestors = cursor.ancestors := by
        unfold Cursor.nextSibling? at found
        split at found
        case h_1 frames =>
            obtain rfl := Option.some.inj found
            simp [Cursor.ancestors, frames]
        case h_2 => simp at found
      simpa only [Stage.ancestors, ancestors] using above
  | @up depth cursor state =>
      obtain ⟨focus, frames⟩ := cursor
      cases frames with
      | nil => exact above
      | cons frame rest => exact fun node member => above node (List.mem_cons_of_mem _ member)

/-- Whatever is shown to a visitor has only nodes above it that the visitor wanted to look into. -/
theorem Ends.ancestors_lookedInto {stage : Stage σ} {calls : List (Visit σ)} {final : Cursor × σ}
    (ends : Ends visit stage calls final) (above : ∀ node ∈ stage.ancestors, lookedInto node) :
    ∀ call ∈ calls, ∀ node ∈ call.place.ancestors, lookedInto node := by
  induction ends with
  | stop => simp
  | @turn stage _ _ _ next _ inductionHypothesis =>
      have later := inductionHypothesis ((turned_of_next? next).ancestors_lookedInto descends above)
      intro call member
      rcases List.mem_append.mp member with here | behind
      · cases stage with
        | visiting depth cursor state =>
            obtain rfl := List.mem_singleton.mp here
            exact above
        | climbing depth cursor state => simp [call?] at here
      · exact later call behind

end LookedInto

end Stage

end PatternScript.Script
