import PatternScript.Proofs.Script.WellFormed
import PatternScript.Proofs.Transpile.Findings

/-!
Contract: two walks over one tree that agree at every node.

The walks differ in what stays the same during a walk: in the options or in the registry. If at every
node of a tree both go the same way and what they find there is related, then what they find in the
whole tree is related, for every relation that can be put together from parts.

Owns: relations between findings that are put together from parts, and the step from nodes to trees.
Does not own: what any two walks agree in.
-/

namespace PatternScript

open Script

/-- A relation between the findings of two walks that holds of a whole if it holds of its parts.
Related findings have counted alike, so that both walks go on from the same counters. -/
structure Findings.Composes (related : Findings → Findings → Prop) : Prop where
  nothing : ∀ counters, related { counters := counters } { counters := counters }
  append : ∀ {first second first' second' : Findings}, related first first' →
    related second second' → related (first.append second) (first'.append second')
  counters : ∀ {found found' : Findings}, related found found' → found.counters = found'.counters

theorem Findings.composes_eq : Composes Eq where
  nothing _ := rfl
  append same same' := by rw [same, same']
  counters same := by rw [same]

namespace Pass

variable {related : Findings → Findings → Prop} {left right : PassContext}

/-- Two walks go the same way at a node, and what they find there is related. -/
def AgreeAt (related : Findings → Findings → Prop) (left right : PassContext) (node : Node) : Prop :=
  ∀ ancestors counters,
    (look left ancestors node counters).1 = (look right ancestors node counters).1 ∧
      related (look left ancestors node counters).2 (look right ancestors node counters).2

theorem related_exploreAll (composes : Findings.Composes related) {ancestors nodes : List Node}
    (each : ∀ node ∈ nodes, ∀ counters, related (explore left ancestors node counters)
      (explore right ancestors node counters))
    (counters : WidgetCounters) :
    related (exploreAll left ancestors nodes counters)
      (exploreAll right ancestors nodes counters) := by
  induction nodes generalizing counters with
  | nil =>
      rw [exploreAll, exploreAll]
      exact composes.nothing counters
  | cons node rest inductionHypothesis =>
      rw [List.forall_mem_cons] at each
      have first := each.1 counters
      rw [exploreAll, exploreAll]
      apply composes.append first
      rw [composes.counters first]
      exact inductionHypothesis each.2 _

/-- Walks that agree at every node of a tree agree about the tree. -/
theorem related_explore (composes : Findings.Composes related) (tree : Node) :
    (∀ node ∈ tree.preorder, AgreeAt related left right node) →
      ∀ (ancestors : List Node) (counters : WidgetCounters),
        related (explore left ancestors tree counters) (explore right ancestors tree counters) := by
  induction tree using Node.induction with
  | step kind role range children inductionHypothesis =>
      intro agree ancestors counters
      have below := related_exploreAll composes fun child member =>
        inductionHypothesis child member
          (fun node inChild => agree node (Node.mem_preorder_of_child member inChild))
          (.mk kind role range children :: ancestors)
      obtain ⟨sameWay, here⟩ := agree _ (Node.mem_preorder_self _) ancestors counters
      rw [explore, explore]
      generalize look left ancestors (.mk kind role range children) counters = answer at *
      generalize look right ancestors (.mk kind role range children) counters = answer' at *
      obtain ⟨action, found⟩ := answer
      obtain ⟨action', found'⟩ := answer'
      obtain rfl : action = action' := sameWay
      cases action with
      | skip => exact here
      | descend =>
          apply composes.append here
          rw [composes.counters here]
          exact below _

/-- What holds of whatever is found at a node of a tree holds of what is found in the tree, if it
holds of a whole when it holds of the parts. -/
theorem holds_explore {context : PassContext} (holds : Findings → Prop)
    (nothing : ∀ counters, holds { counters := counters })
    (append : ∀ first second, holds first → holds second → holds (first.append second))
    {tree : Node} (each : ∀ node ∈ tree.preorder, ∀ ancestors counters,
      holds (look context ancestors node counters).2)
    (ancestors : List Node) (counters : WidgetCounters) :
    holds (explore context ancestors tree counters) := by
  -- One walk is two walks that find the same.
  have composes : Findings.Composes fun found found' => found = found' ∧ holds found :=
    { nothing := fun counters => ⟨rfl, nothing counters⟩
      append := fun ⟨same, first⟩ ⟨same', second⟩ => ⟨by rw [same, same'], append _ _ first second⟩
      counters := fun ⟨same, _⟩ => by rw [same] }
  have agree : ∀ node ∈ tree.preorder,
      AgreeAt (fun found found' => found = found' ∧ holds found) context context node :=
    fun node member ancestors counters => ⟨rfl, rfl, each node member ancestors counters⟩
  exact (related_explore composes tree agree ancestors counters).2

end Pass

end PatternScript
