import PatternScript.Proofs.Script.Walk
import PatternScript.Transpile.Pass

/-!
Contract: what a walk adds to what it has collected before.

A visit reads nothing of what has been collected but the counters. So a walk over a tree can be
told by what it finds, starting from counters alone: the replacements in the order in which they are
recorded, the locations and the controls in the order in which they are reported, and the counters
afterwards. Findings of trees that follow each other are put together.

Owns: findings of one visit, of a tree and of some trees, and their relation to the walk.
Does not own: what each rule finds.
-/

namespace PatternScript

open Script

/-- What a part of a walk adds to what was there before it. -/
structure Findings where
  /-- The replacements in the order in which they are recorded. -/
  edits : List Edit := []
  locations : List Span := []
  widgets : List WidgetDescriptor := []
  /-- The counters afterwards. -/
  counters : WidgetCounters

namespace Findings

/-- Findings of one part of a walk and of the part behind it. -/
def append (first second : Findings) : Findings :=
  { edits := first.edits ++ second.edits
    locations := first.locations ++ second.locations
    widgets := first.widgets ++ second.widgets
    counters := second.counters }

/-- What has been collected from nothing. -/
def ofPass (pass : Pass) : Findings :=
  { edits := pass.edits.entries
    locations := pass.locations
    widgets := pass.widgets
    counters := pass.counters }

/-- The answer of a visit that started from nothing, with what it has collected. -/
def ofVisit (answer : Action × Pass) : Action × Findings :=
  (answer.1, ofPass answer.2)

end Findings

namespace Pass

/-- Records replacements one after the other. -/
def insertAll (edits : List Edit) (entries : List Edit) : List Edit :=
  edits.foldl (fun entries edit => Edits.insert edit entries) entries

/-- What has been collected after more has been found. -/
def absorb (pass : Pass) (found : Findings) : Pass :=
  { edits := ⟨insertAll found.edits pass.edits.entries⟩
    locations := pass.locations ++ found.locations
    widgets := pass.widgets ++ found.widgets
    counters := found.counters }

theorem absorb_counters (pass : Pass) (found : Findings) :
    (pass.absorb found).counters = found.counters := rfl

theorem absorb_nothing (pass : Pass) : pass.absorb { counters := pass.counters } = pass := by
  simp [absorb, insertAll]

theorem absorb_append (pass : Pass) (first second : Findings) :
    pass.absorb (first.append second) = (pass.absorb first).absorb second := by
  simp [absorb, Findings.append, insertAll]

/-! ## Reports -/

theorem report_eq (pass : Pass) (context : PassContext) (spans : List Span) :
    pass.report context spans =
      { pass with
        locations := pass.locations ++ if context.options.emitLocations then spans else [] } := by
  unfold report
  split <;> simp

theorem describe_eq (pass : Pass) (context : PassContext) (widget : WidgetDescriptor) :
    pass.describe context widget =
      { pass with
        widgets := pass.widgets ++ if context.options.emitWidgets then [widget] else [] } := by
  unfold describe
  split <;> simp

/-! ## One visit -/

/-- The answer of a visitor that starts from counters alone, and what it finds. -/
def look (context : PassContext) (ancestors : List Node) (node : Node)
    (counters : WidgetCounters) : Action × Findings :=
  Findings.ofVisit (visit context ancestors node { counters := counters })

/-- A visit adds what it finds from the counters alone. -/
theorem visit_eq_absorb (context : PassContext) (ancestors : List Node) (node : Node)
    (pass : Pass) :
    visit context ancestors node pass =
      ((look context ancestors node pass.counters).1,
        pass.absorb (look context ancestors node pass.counters).2) := by
  unfold look visit
  cases Rule.select? context.registry (Shape.of context.source ancestors.head? node) with
  | none => simp [absorb, Findings.ofVisit, Findings.ofPass, insertAll]
  | some rule =>
      cases rule with
      | subLanguage tag template =>
          simp only [apply]
          split <;>
            simp [tagged, literalCall, replace, Edits.replace, Edits.insert, report_eq, absorb,
              Findings.ofVisit, Findings.ofPass, insertAll]
      | tidal template =>
          simp [apply, tagged, literalCall, replace, Edits.replace, Edits.insert, report_eq, absorb,
            Findings.ofVisit, Findings.ofPass, insertAll]
      | templatePattern =>
          simp only [apply, pattern]
          split
          · simp [absorb, Findings.ofVisit, Findings.ofPass, insertAll]
          · split <;>
              simp [literalCall, replace, Edits.replace, Edits.insert, report_eq, absorb,
                Findings.ofVisit, Findings.ofPass, insertAll]
      | stringPattern =>
          simp only [apply, pattern]
          split
          · simp [absorb, Findings.ofVisit, Findings.ofPass, insertAll]
          · split <;>
              simp [literalCall, replace, Edits.replace, Edits.insert, report_eq, absorb,
                Findings.ofVisit, Findings.ofPass, insertAll]
      | nativeWidget widget parts =>
          simp only [apply, nativeWidget]
          split <;>
            simp [replace, Edits.replace, Edits.insert, describe_eq, absorb, Findings.ofVisit,
              Findings.ofPass, insertAll]
      | widgetMethod method parts =>
          simp [apply, widgetMethod, replace, Edits.replace, Edits.insert, describe_eq, absorb,
            Findings.ofVisit, Findings.ofPass, insertAll]
      | awaitSamples parts =>
          simp [apply, awaitSamples, replace, Edits.replace, Edits.insert, absorb,
            Findings.ofVisit, Findings.ofPass, insertAll]
      | label text expression =>
          simp [apply, label, replace, Edits.replace, Edits.insert, absorb, Findings.ofVisit,
              Findings.ofPass, insertAll]

/-! ## Whole trees -/

mutual

/-- What a walk over a tree finds. -/
def explore (context : PassContext) (ancestors : List Node) :
    Node → WidgetCounters → Findings
  | .mk kind role range children, counters =>
      let node := Node.mk kind role range children
      match look context ancestors node counters with
      | (.descend, here) =>
          here.append (exploreAll context (node :: ancestors) children here.counters)
      | (.skip, here) => here

/-- What a walk over some trees finds. -/
def exploreAll (context : PassContext) (ancestors : List Node) :
    List Node → WidgetCounters → Findings
  | [], counters => { counters := counters }
  | node :: rest, counters =>
      let first := explore context ancestors node counters
      first.append (exploreAll context ancestors rest first.counters)

end

mutual

theorem visitTree_eq_absorb (context : PassContext) :
    ∀ (ancestors : List Node) (node : Node) (pass : Pass),
      node.visitTree (visit context) ancestors pass =
        pass.absorb (explore context ancestors node pass.counters)
  | ancestors, .mk kind role range children, pass => by
      rw [Node.visitTree, explore, visit_eq_absorb]
      generalize look context ancestors (.mk kind role range children) pass.counters = found
      obtain ⟨action, here⟩ := found
      cases action with
      | skip => rfl
      | descend =>
          simp only
          rw [visitTrees_eq_absorb, absorb_append, absorb_counters]

theorem visitTrees_eq_absorb (context : PassContext) :
    ∀ (ancestors : List Node) (nodes : List Node) (pass : Pass),
      Node.visitTrees (visit context) ancestors nodes pass =
        pass.absorb (exploreAll context ancestors nodes pass.counters)
  | _, [], pass => by
      rw [Node.visitTrees, exploreAll, absorb_nothing]
  | ancestors, node :: rest, pass => by
      rw [Node.visitTrees, exploreAll, visitTree_eq_absorb context ancestors node pass,
        visitTrees_eq_absorb, absorb_append, absorb_counters]

end

/-- The walk over a tree collects what is found in it. -/
theorem ofTree_eq_absorb (context : PassContext) (tree : Node) :
    ofTree context tree = absorb {} (explore context [] tree []) := by
  unfold ofTree
  rw [Cursor.traverse_eq_visitTree]
  exact visitTree_eq_absorb context [] tree {}

end Pass

end PatternScript
