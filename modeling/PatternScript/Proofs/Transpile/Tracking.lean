import PatternScript.Proofs.Edits.Verdicts
import PatternScript.Proofs.Script.Programs
import PatternScript.Proofs.Transpile.Agreement
import PatternScript.Proofs.Transpile.Choices
import PatternScript.Transpile

/-!
Contract: what reports and callers have to do with the program.

Reports are made beside the program: whether they are asked for decides if they are in the result and
nothing else. The caller leads the identifiers of methods and is found nowhere else, neither in the
other fields of a report nor in the choice between a result and an error.

Owns: runs that end alike, and the results under options that differ in reports or in the caller.
Does not own: what is reported.
-/

namespace PatternScript

open Script

/-- Two runs end alike: both in the same error, or both in a result and the results are related. -/
inductive EndAlike (related : Transpiled → Transpiled → Prop) :
    Except TranspileError Transpiled → Except TranspileError Transpiled → Prop where
  | failed (error : TranspileError) : EndAlike related (.error error) (.error error)
  | done {left right : Transpiled} (same : related left right) :
      EndAlike related (.ok left) (.ok right)

/-- Two results have the same output, and the same reports where both have them. -/
structure Transpiled.SameProgram (left right : Transpiled) : Prop where
  output : left.output = right.output
  locations : ∀ spans spans', left.locations = some spans → right.locations = some spans' →
    spans = spans'
  widgets : ∀ widgets widgets', left.widgets = some widgets → right.widgets = some widgets' →
    widgets = widgets'

/-- Two descriptors agree in all fields, except for the identifier if they describe a method. -/
structure WidgetDescriptor.SameButCaller (left right : WidgetDescriptor) : Prop where
  fields : { left with id := right.id } = right
  id : (∀ name, left.kind ≠ .method name) → left.id = right.id

/-- Two results have the same reports, except for the identifiers of methods. -/
structure Transpiled.SameReports (left right : Transpiled) : Prop where
  locations : left.locations = right.locations
  widgets : Option.Rel (List.Forall₂ WidgetDescriptor.SameButCaller) left.widgets right.widgets

/-- The result of a run with what the walk has collected and the text that was written. -/
def Transpiled.ofRun (options : Options) (pass : Pass) (output : List Char) : Transpiled :=
  { output := String.ofList output
    locations := if options.emitLocations then some pass.locations else none
    widgets := if options.emitWidgets then some pass.widgets else none }

theorem transpileTree_eq_map (source : SourceText) (tree : Node) (options : Options)
    (registry : Registry) :
    transpileTree source tree options registry =
      (Ending.text source tree (Pass.ofTree ⟨source, registry, options⟩ tree).edits options).map
        (Transpiled.ofRun options (Pass.ofTree ⟨source, registry, options⟩ tree)) := by
  unfold transpileTree
  simp only
  cases Ending.text source tree (Pass.ofTree ⟨source, registry, options⟩ tree).edits options <;> rfl

theorem EndAlike.map {related : Transpiled → Transpiled → Prop}
    {made made' : Except TranspileError (List Char)} {result result' : List Char → Transpiled}
    (sameVerdict : verdict made = verdict made')
    (each : ∀ output output', related (result output) (result' output')) :
    EndAlike related (made.map result) (made'.map result') := by
  cases made <;> cases made' <;> cases sameVerdict
  · exact .failed _
  · exact .done (each _ _)

theorem EndAlike.transpile {related : Transpiled → Transpiled → Prop} {text : String}
    {first second : Options} {registry : Registry}
    (each : ∀ tree, EndAlike related
      (transpileTree (.ofString text) tree first registry)
      (transpileTree (.ofString text) tree second registry)) :
    EndAlike related (transpile text first registry) (transpile text second registry) := by
  cases read : readProgram (.ofString text) with
  | error error =>
      rw [transpile_of_unreadable read, transpile_of_unreadable read]
      exact .failed error
  | ok tree =>
      rw [transpile_of_readProgram read, transpile_of_readProgram read]
      exact each tree

/-! ## Reports -/

theorem Ending.text_congr {first second : Options} (sameWrap : first.wrapAsync = second.wrapAsync)
    (sameReturn : first.addReturn = second.addReturn) (source : SourceText) (tree : Node)
    (edits : Edits) : text source tree edits first = text source tree edits second := by
  simp only [text, body, sameWrap, sameReturn]

/-- What is reported is in the result exactly if it is asked for. -/
theorem isSome_reports {text : String} {options : Options} {registry : Registry}
    {result : Transpiled} (transpiled : transpile text options registry = .ok result) :
    result.locations.isSome = options.emitLocations ∧
      result.widgets.isSome = options.emitWidgets := by
  cases read : readProgram (.ofString text) with
  | error error =>
      rw [transpile_of_unreadable read] at transpiled
      cases transpiled
  | ok tree =>
      rw [transpile_of_readProgram read, transpileTree_eq_map] at transpiled
      generalize Ending.text _ _ _ _ = written at transpiled
      cases written with
      | error error => cases transpiled
      | ok output =>
          obtain rfl := Except.ok.inj transpiled
          unfold Transpiled.ofRun
          cases options.emitLocations <;> cases options.emitWidgets <;> exact ⟨rfl, rfl⟩

namespace Pass

section Reports

variable {source : SourceText} {registry : Registry} {first second : Options}

/-- Under options with one caller the same is found, and each run reports what it is asked for. -/
theorem exists_asked_of_caller (sameCaller : first.callerId = second.callerId) (tree : Node) :
    ∃ found : Findings,
      ofTree ⟨source, registry, first⟩ tree = absorb {} (found.asked first) ∧
        ofTree ⟨source, registry, second⟩ tree = absorb {} (found.asked second) := by
  refine ⟨explore ⟨source, registry, first.reportingAll⟩ [] tree [], ofTree_eq_asked first tree, ?_⟩
  rw [ofTree_eq_asked, Options.reportingAll, Options.reportingAll, sameCaller]

theorem sameProgram_transpileTree (sameWrap : first.wrapAsync = second.wrapAsync)
    (sameReturn : first.addReturn = second.addReturn) (sameCaller : first.callerId = second.callerId)
    (tree : Node) :
    EndAlike Transpiled.SameProgram (transpileTree source tree first registry)
      (transpileTree source tree second registry) := by
  obtain ⟨found, ran, ran'⟩ := @exists_asked_of_caller source registry first second sameCaller tree
  rw [transpileTree_eq_map, transpileTree_eq_map, ran, ran', Ending.text_congr sameWrap sameReturn]
  simp only [absorb, Findings.asked]
  cases Ending.text source tree ⟨insertAll found.edits []⟩ second with
  | error error => exact .failed error
  | ok output =>
      refine .done ⟨rfl, ?_, ?_⟩
      · intro spans spans' reported reported'
        simp only [Transpiled.ofRun, Option.ite_none_right_eq_some, Option.some.injEq] at reported reported'
        rw [← reported.2, ← reported'.2, if_pos reported.1, if_pos reported'.1]
      · intro widgets widgets' reported reported'
        simp only [Transpiled.ofRun, Option.ite_none_right_eq_some, Option.some.injEq] at reported reported'
        rw [← reported.2, ← reported'.2, if_pos reported.1, if_pos reported'.1]

end Reports

end Pass

/-! ## Callers -/

theorem WidgetDescriptor.SameButCaller.refl (widget : WidgetDescriptor) : widget.SameButCaller widget :=
  ⟨rfl, fun _ => rfl⟩

/-- What is found for two callers: replacements with the same frames, and the same reports except for
the identifiers of methods. -/
structure Findings.SameButCaller (left right : Findings) : Prop where
  edits : List.Forall₂ Edit.SameFrame left.edits right.edits
  locations : left.locations = right.locations
  widgets : List.Forall₂ WidgetDescriptor.SameButCaller left.widgets right.widgets
  counters : left.counters = right.counters

theorem Findings.SameButCaller.refl (found : Findings) : found.SameButCaller found where
  edits := List.forall₂_same.mpr fun _ _ => ⟨rfl, rfl⟩
  locations := rfl
  widgets := List.forall₂_same.mpr fun widget _ => .refl widget
  counters := rfl

theorem Findings.composes_sameButCaller : Composes SameButCaller where
  nothing _ := .refl _
  append same same' :=
    { edits := List.rel_append same.edits same'.edits
      locations := congrArg₂ (· ++ ·) same.locations same'.locations
      widgets := List.rel_append same.widgets same'.widgets
      counters := same'.counters }
  counters same := same.counters

namespace Ending

variable {edits edits' : Edits}

theorem verdict_write (source : SourceText)
    (sameFrames : List.Forall₂ Edit.SameFrame edits.entries edits'.entries) (range : ByteRange) :
    verdict (write source edits range) = verdict (write source edits' range) := by
  have same := Edits.verdict_render source.chars sameFrames range
  unfold write
  cases written : edits.render source.chars range <;>
    cases written' : edits'.render source.chars range <;>
    rw [written, written'] at same <;> cases same <;> rfl

/-- Whether a program can be written depends on the frames of its replacements. -/
theorem verdict_text (source : SourceText) (tree : Node) {options options' : Options}
    (sameFrames : List.Forall₂ Edit.SameFrame edits.entries edits'.entries)
    (sameReturn : options.addReturn = options'.addReturn) :
    verdict (text source tree edits options) = verdict (text source tree edits' options') := by
  unfold text
  refine verdict_bind ?_ fun _ _ => rfl
  unfold body
  rw [sameReturn]
  have written := verdict_write source sameFrames
  cases tree.statements.getLast? with
  | none => exact verdict_bind (written _) fun _ _ => rfl
  | some last =>
      by_cases returns : options'.addReturn = true
      · simp only [returns, if_true]
        apply verdict_bind rfl
        intro _ _
        apply verdict_bind (written _)
        intro _ _
        exact verdict_bind (written _) fun _ _ => rfl
      · simp only [returns]
        exact written _

end Ending

namespace Pass

section Callers

variable {source : SourceText} {registry : Registry}

/-- At one node the caller is found in the identifier of a method only. -/
theorem agreeAt_of_caller (options : Options) (caller : Option String) (node : Node) :
    AgreeAt Findings.SameButCaller ⟨source, registry, options⟩
      ⟨source, registry, { options with callerId := caller }⟩ node := by
  intro ancestors counters
  unfold look visit
  cases Rule.select? registry (Shape.of source ancestors.head? node) with
  | none => exact ⟨rfl, .refl _⟩
  | some rule =>
      cases rule with
      | widgetMethod method parts =>
          simp only [apply, widgetMethod, replace, Edits.replace, describe_eq]
          refine ⟨rfl, .cons ⟨rfl, rfl⟩ .nil, rfl, ?_, rfl⟩
          by_cases asked : options.emitWidgets = true
          · simp only [Findings.ofVisit, Findings.ofPass, asked, if_true]
            exact .cons ⟨rfl, fun isFunction => absurd rfl (isFunction method)⟩ .nil
          · simp only [Findings.ofVisit, Findings.ofPass, asked]
            exact .nil
      | _ => exact ⟨rfl, .refl _⟩

theorem forall₂_insertAll {edits edits' entries entries' : List Edit}
    (sameFrames : List.Forall₂ Edit.SameFrame edits edits')
    (before : List.Forall₂ Edit.SameFrame entries entries') :
    List.Forall₂ Edit.SameFrame (insertAll edits entries) (insertAll edits' entries') := by
  induction sameFrames generalizing entries entries' with
  | nil => exact before
  | cons atHead _ inductionHypothesis =>
      exact inductionHypothesis (Edits.forall₂_insert atHead before)

theorem sameReports_transpileTree (options : Options) (caller : Option String) (tree : Node) :
    EndAlike Transpiled.SameReports (transpileTree source tree options registry)
      (transpileTree source tree { options with callerId := caller } registry) := by
  have found := related_explore Findings.composes_sameButCaller tree
    (fun node _ => @agreeAt_of_caller source registry options caller node) [] []
  have frames : List.Forall₂ Edit.SameFrame
      (ofTree ⟨source, registry, options⟩ tree).edits.entries
      (ofTree ⟨source, registry, { options with callerId := caller }⟩ tree).edits.entries := by
    rw [ofTree_eq_absorb, ofTree_eq_absorb]
    exact forall₂_insertAll found.edits .nil
  rw [transpileTree_eq_map, transpileTree_eq_map]
  apply EndAlike.map (Ending.verdict_text source tree frames rfl)
  intro output output'
  rw [ofTree_eq_absorb, ofTree_eq_absorb]
  constructor
  · simp only [Transpiled.ofRun, absorb, found.locations]
  · simp only [Transpiled.ofRun]
    by_cases asked : options.emitWidgets = true
    · rw [if_pos asked, if_pos asked]
      exact .some found.widgets
    · rw [if_neg asked, if_neg asked]
      exact .none

end Callers

/-! ## Two runs -/

/-- Reports are in a result exactly if they are asked for, and asking for them changes nothing else:
two runs that differ in what they report end in the same error or with the same output, and a report
that both make is the same. Two runs that differ in the caller end in the same error or with the same
reports, in which no more than the identifiers of methods differ. -/
theorem reports_leave_program (text : String) (registry : Registry) (first second : Options)
    (sameWrap : first.wrapAsync = second.wrapAsync)
    (sameReturn : first.addReturn = second.addReturn) :
    (∀ result, transpile text first registry = .ok result →
      result.locations.isSome = first.emitLocations ∧
        result.widgets.isSome = first.emitWidgets) ∧
    (first.callerId = second.callerId →
      EndAlike Transpiled.SameProgram (transpile text first registry)
        (transpile text second registry)) ∧
    (first.emitLocations = second.emitLocations → first.emitWidgets = second.emitWidgets →
      EndAlike Transpiled.SameReports (transpile text first registry)
        (transpile text second registry)) := by
  refine ⟨fun result => isSome_reports, ?_, ?_⟩
  · intro sameCaller
    exact .transpile fun tree => sameProgram_transpileTree sameWrap sameReturn sameCaller tree
  · intro sameLocations sameWidgets
    have second_eq : second = { first with callerId := second.callerId } := by
      cases first
      cases second
      simp_all
    rw [second_eq]
    exact .transpile fun tree => sameReports_transpileTree first second.callerId tree

/-- A program with a location and a method, under options that differ in all reports and under options
that differ in the caller. -/
theorem reports_leave_program_method :
    (transpile "s(\"a\").w()" {} { methods := ["w"] }).toOption.map Transpiled.output =
        some "return s(m(\"a\", 2)).w('_widget_w_0')" ∧
      EndAlike Transpiled.SameProgram (transpile "s(\"a\").w()" {} { methods := ["w"] })
        (transpile "s(\"a\").w()" { emitLocations := false, emitWidgets := false }
          { methods := ["w"] }) ∧
      EndAlike Transpiled.SameReports (transpile "s(\"a\").w()" {} { methods := ["w"] })
        (transpile "s(\"a\").w()" { callerId := some "c" } { methods := ["w"] }) := by
  have output := @transpile_of_leading "s(\"a\").w()".toList {} { methods := ["w"] }
    (fun result => result.toOption.map Transpiled.output ==
      some "return s(m(\"a\", 2)).w('_widget_w_0')") (by decide +kernel)
  rw [String.ofList_toList, beq_iff_eq] at output
  refine ⟨output, ?_, ?_⟩
  · exact (reports_leave_program "s(\"a\").w()" { methods := ["w"] } {}
      { emitLocations := false, emitWidgets := false } rfl rfl).2.1 rfl
  · exact (reports_leave_program "s(\"a\").w()" { methods := ["w"] } {} { callerId := some "c" }
      rfl rfl).2.2 rfl rfl

end Pass

end PatternScript
