import PatternScript.Proofs.Transpile.Nesting

/-!
Contract: what the options change about a walk.

Of all options a walk reads three. The caller leads the identifiers of widget methods; the other two
say whether locations and controls are reported. What is not asked for is found all the same, so the
findings under any options are those under options that ask for everything, with the reports left out
that are not asked for.

Owns: findings as far as they are asked for, and their equality for a visit, a tree and a whole walk.
Does not own: what is found.
-/

namespace PatternScript

open Script

/-- The options that ask for every report, with the same caller. -/
def Options.reportingAll (options : Options) : Options :=
  { callerId := options.callerId }

/-- What is left of findings if only the reports that are asked for are made. -/
def Findings.asked (options : Options) (found : Findings) : Findings :=
  { found with
    locations := if options.emitLocations then found.locations else []
    widgets := if options.emitWidgets then found.widgets else [] }

theorem Findings.asked_append (options : Options) (first second : Findings) :
    (first.append second).asked options =
      (first.asked options).append (second.asked options) := by
  obtain ⟨_, _, emitLocations, emitWidgets, _⟩ := options
  cases emitLocations <;> cases emitWidgets <;> rfl

namespace Pass

variable {source : SourceText} {registry : Registry}

/-- A visit makes the reports that are asked for and does everything else under all options alike. -/
theorem look_eq_asked (options : Options) (ancestors : List Node) (node : Node)
    (counters : WidgetCounters) :
    look ⟨source, registry, options⟩ ancestors node counters =
      (look ⟨source, registry, options.reportingAll⟩ ancestors node counters).map id
        (Findings.asked options) := by
  unfold look visit
  cases Rule.select? registry (Shape.of source ancestors.head? node) with
  | none => simp [Findings.ofVisit, Findings.ofPass, Findings.asked]
  | some rule =>
      cases rule with
      | subLanguage tag template =>
          simp only [apply]
          split <;>
            simp [tagged, literalCall, replace, report_eq, Findings.ofVisit, Findings.ofPass,
              Findings.asked, Options.reportingAll]
      | tidal template =>
          simp [apply, tagged, literalCall, replace, report_eq, Findings.ofVisit, Findings.ofPass,
            Findings.asked, Options.reportingAll]
      | templatePattern | stringPattern =>
          simp only [apply, pattern]
          split
          · simp [Findings.ofVisit, Findings.ofPass, Findings.asked]
          · split <;>
              simp [literalCall, replace, report_eq, Findings.ofVisit, Findings.ofPass,
                Findings.asked, Options.reportingAll]
      | nativeWidget widget parts =>
          simp only [apply, nativeWidget]
          split <;>
            simp [replace, describe_eq, Findings.ofVisit, Findings.ofPass, Findings.asked,
              Options.reportingAll]
      | widgetMethod method parts =>
          simp [apply, widgetMethod, replace, describe_eq, Findings.ofVisit, Findings.ofPass,
            Findings.asked, Options.reportingAll]
      | awaitSamples parts =>
          simp [apply, awaitSamples, replace, Findings.ofVisit, Findings.ofPass, Findings.asked]
      | label text expression =>
          simp [apply, label, replace, Findings.ofVisit, Findings.ofPass, Findings.asked]

mutual

theorem explore_eq_asked (options : Options) :
    ∀ (ancestors : List Node) (node : Node) (counters : WidgetCounters),
      explore ⟨source, registry, options⟩ ancestors node counters =
        (explore ⟨source, registry, options.reportingAll⟩ ancestors node counters).asked options
  | ancestors, .mk kind role range children, counters => by
      rw [explore, explore, look_eq_asked]
      generalize look ⟨source, registry, options.reportingAll⟩ ancestors
        (.mk kind role range children) counters = looked
      obtain ⟨action, found⟩ := looked
      cases action with
      | skip => rfl
      | descend =>
          simp only [Prod.map_apply, id]
          rw [Findings.asked_append, ← exploreAll_eq_asked]
          rfl

theorem exploreAll_eq_asked (options : Options) :
    ∀ (ancestors nodes : List Node) (counters : WidgetCounters),
      exploreAll ⟨source, registry, options⟩ ancestors nodes counters =
        (exploreAll ⟨source, registry, options.reportingAll⟩ ancestors nodes counters).asked options
  | _, [], counters => by
      simp [exploreAll, Findings.asked]
  | ancestors, node :: rest, counters => by
      rw [exploreAll, exploreAll, Findings.asked_append, ← exploreAll_eq_asked,
        explore_eq_asked options ancestors node counters]
      rfl

end

/-- What is collected from a tree under any options: the replacements found when everything is asked
for, and the reports that are asked for. -/
theorem ofTree_eq_asked (options : Options) (tree : Node) :
    ofTree ⟨source, registry, options⟩ tree =
      absorb {}
        ((explore ⟨source, registry, options.reportingAll⟩ [] tree []).asked options) := by
  rw [ofTree_eq_absorb, explore_eq_asked]

/-- The replacements of a tree depend on no option but the caller. -/
theorem edits_ofTree_of_caller {first second : Options} (same : first.callerId = second.callerId)
    (tree : Node) :
    (ofTree ⟨source, registry, first⟩ tree).edits =
      (ofTree ⟨source, registry, second⟩ tree).edits := by
  rw [ofTree_eq_asked, ofTree_eq_asked, Options.reportingAll, Options.reportingAll, same]
  rfl

/-- What is collected from a tree does not depend on what is done at the end of the program. -/
theorem ofTree_of_ending (options : Options) (addReturn wrapAsync : Bool) (tree : Node) :
    ofTree ⟨source, registry, { options with addReturn := addReturn, wrapAsync := wrapAsync }⟩ tree =
      ofTree ⟨source, registry, options⟩ tree := by
  rw [ofTree_eq_asked, ofTree_eq_asked]
  rfl

end Pass

end PatternScript
