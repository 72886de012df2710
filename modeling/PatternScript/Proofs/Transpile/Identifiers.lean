import PatternScript.Proofs.Source.Offsets
import PatternScript.Proofs.Transpile.Choices
import PatternScript.Proofs.Transpile.Splicing

/-!
Contract: the identifiers of the controls in a program.

An identifier ends in a number behind an underscore, so that the number and what stands before it can
be read off. For a function the number is the place of its first argument, which lies inside the call
and inside no other call that is looked at; for a method it is the count of its calls so far. A walk
thus gives no identifier twice. The identifiers it puts into the program are those it reports, in the
same order.

Owns: telling identifiers apart, the identifiers that a walk gives, and those that it reports.
Does not own: where the replacements that carry them stand.
-/

namespace PatternScript

open Script
open Text (Boundary)

/-! ## Reading identifiers -/

/-- A number behind the last underscore of a text can be read off it. -/
theorem numbered_inj {left right : String} {first second : Nat}
    (same : left ++ "_" ++ Nat.repr first = right ++ "_" ++ Nat.repr second) :
    left = right ∧ first = second := by
  have noUnderscore : ∀ number, '_' ∉ Nat.toDigits 10 number := fun number member =>
    absurd (Nat.isDigit_of_mem_toDigits (by decide) (by decide) member) (by decide)
  have texts : left.toList ++ '_' :: Nat.toDigits 10 first =
      right.toList ++ '_' :: Nat.toDigits 10 second := by
    simpa [Nat.repr_eq_ofList_toDigits] using congrArg String.toList same
  -- A longer first part would put its underscore among the digits of the other number.
  have atEnd : ∀ {shorter longer digits digits' : List Char}, '_' ∉ digits →
      (∃ extra, longer = shorter ++ extra ∧ '_' :: digits = extra ++ '_' :: digits') →
        shorter = longer ∧ digits = digits' := by
    rintro shorter longer digits digits' noUnderscore ⟨extra, rfl, split⟩
    cases extra with
    | nil => simpa using split
    | cons c extra => simp_all
  obtain ⟨stems, digits⟩ : left.toList = right.toList ∧
      Nat.toDigits 10 first = Nat.toDigits 10 second := by
    rcases List.append_eq_append_iff.mp texts with onRight | onLeft
    · exact atEnd (noUnderscore first) onRight
    · exact (atEnd (noUnderscore second) onLeft).imp Eq.symm Eq.symm
  have numbers := congrArg (Nat.ofDigitChars 10 · 0) digits
  simp only [Nat.ofDigitChars_toDigits (by decide : 1 < 10) (Nat.le_refl 10)] at numbers
  exact ⟨String.toList_injective stems, numbers⟩

theorem NativeWidget.offset_eq_of_id_eq {left right : NativeWidget} {first second : Nat}
    (same : left.id first = right.id second) : first = second :=
  (numbered_inj same).2

theorem methodWidgetId_inj {caller : Option String} {left right : String} {first second : Nat}
    (same : methodWidgetId caller left first = methodWidgetId caller right second) :
    left = right ∧ first = second := by
  obtain ⟨stems, indices⟩ := numbered_inj same
  exact ⟨(String.append_right_inj _).mp stems, indices⟩

/-- No function has the identifier of a method: the name of a function holds no underscore. -/
theorem NativeWidget.id_ne_methodWidgetId (control : NativeWidget) (offset : Nat)
    (caller : Option String) (method : String) (index : Nat) :
    control.id offset ≠ methodWidgetId caller method index := by
  intro same
  have stems := congrArg String.toList (numbered_inj same).1
  have held : '_' ∈ control.kind.name.toList := by
    rw [stems]
    simp
  cases control <;> exact absurd held (by decide)

/-- The identifier that a replacement puts before the arguments of a call, if it does. -/
def Edit.identifier? (edit : Edit) : Option String :=
  match edit.emission with
  | .call _ (.before (.identifier id) _) => some id
  | _ => none

/-- The identifiers that are put into the program, in the order in which they are recorded. -/
def Findings.identifiers (found : Findings) : List String :=
  found.edits.filterMap Edit.identifier?

theorem Findings.identifiers_append (first second : Findings) :
    (first.append second).identifiers = first.identifiers ++ second.identifiers := by
  simp [identifiers, append]

/-! ## Counting -/

namespace WidgetCounters

theorem count_next (counters : WidgetCounters) (name other : String) :
    (counters.next name).2.count other =
      if other = name then counters.count name + 1 else counters.count other := by
  have others : other ≠ name →
      (counters.filter fun entry => entry.1 != name).lookup other = counters.lookup other := by
    intro different
    induction counters with
    | nil => rfl
    | cons entry rest inductionHypothesis =>
        by_cases counted : entry.1 = name
        · rw [List.filter_cons_of_neg (by simpa using counted), inductionHypothesis, List.lookup_cons,
            beq_false_of_ne (counted ▸ different)]
        · rw [List.filter_cons_of_pos (by simpa using counted), List.lookup_cons, List.lookup_cons,
            inductionHypothesis]
  unfold next count
  rw [List.lookup_cons]
  by_cases same : other = name
  · simp [same]
  · rw [beq_false_of_ne same, others same, if_neg same]

theorem count_le_count_next (counters : WidgetCounters) (name other : String) :
    counters.count other ≤ (counters.next name).2.count other := by
  rw [count_next]
  split
  · subst other
    exact Nat.le_succ _
  · exact Nat.le_refl _

end WidgetCounters

namespace Pass

/-! ## What is reported -/

/-- A visit reports the identifier that it puts into the program. -/
theorem ids_look (context : PassContext) (ancestors : List Node) (node : Node)
    (counters : WidgetCounters) :
    (look context ancestors node counters).2.widgets.map WidgetDescriptor.id =
      if context.options.emitWidgets then (look context ancestors node counters).2.identifiers
      else [] := by
  unfold look visit
  cases Rule.select? context.registry (Shape.of context.source ancestors.head? node) with
  | none => simp [Findings.ofVisit, Findings.ofPass, Findings.identifiers]
  | some rule =>
      cases rule with
      | subLanguage tag template =>
          simp only [apply]
          split <;>
            simp [tagged, literalCall, replace, Edits.replace, Edits.insert, report_eq,
              Findings.ofVisit, Findings.ofPass, Findings.identifiers, Edit.identifier?,
              Emission.callWith]
      | tidal template =>
          simp [apply, tagged, literalCall, replace, Edits.replace, Edits.insert, report_eq,
            Findings.ofVisit, Findings.ofPass, Findings.identifiers, Edit.identifier?,
            Emission.callWith]
      | templatePattern | stringPattern =>
          simp only [apply, pattern]
          split
          · simp [Findings.ofVisit, Findings.ofPass, Findings.identifiers]
          · split <;>
              simp [literalCall, replace, Edits.replace, Edits.insert, report_eq, Findings.ofVisit,
                Findings.ofPass, Findings.identifiers, Edit.identifier?, Emission.callWith]
      | nativeWidget widget parts =>
          simp only [apply, nativeWidget]
          split
          · simp [Findings.ofVisit, Findings.ofPass, Findings.identifiers]
          · simp only [replace, Edits.replace, Edits.insert, describe_eq, Findings.ofVisit,
              Findings.ofPass, Findings.identifiers, Emission.callBefore]
            split <;> rfl
      | widgetMethod method parts =>
          simp only [apply, widgetMethod, replace, Edits.replace, Edits.insert, describe_eq,
            Findings.ofVisit, Findings.ofPass, Findings.identifiers, Emission.callBefore]
          split <;> rfl
      | awaitSamples parts =>
          simp only [apply, awaitSamples]
          split <;>
            simp [replace, Edits.replace, Edits.insert, Findings.ofVisit, Findings.ofPass,
              Findings.identifiers, Edit.identifier?]
      | label text expression =>
          simp [apply, label, replace, Edits.replace, Edits.insert, Findings.ofVisit,
            Findings.ofPass, Findings.identifiers, Edit.identifier?, Emission.method,
            Emission.callWith]

mutual

theorem ids_explore (context : PassContext) :
    ∀ (ancestors : List Node) (node : Node) (counters : WidgetCounters),
      (explore context ancestors node counters).widgets.map WidgetDescriptor.id =
        if context.options.emitWidgets then (explore context ancestors node counters).identifiers
        else []
  | ancestors, .mk kind role range children, counters => by
      have atNode := ids_look context ancestors (.mk kind role range children) counters
      rw [explore]
      cases looked : look context ancestors (.mk kind role range children) counters with
      | mk action found =>
          rw [looked] at atNode
          cases action with
          | skip => exact atNode
          | descend =>
              have below := ids_exploreAll context (.mk kind role range children :: ancestors)
                children found.counters
              simp only [Findings.append, List.map_append, Findings.identifiers,
                List.filterMap_append] at *
              rw [atNode, below]
              split <;> simp

theorem ids_exploreAll (context : PassContext) :
    ∀ (ancestors nodes : List Node) (counters : WidgetCounters),
      (exploreAll context ancestors nodes counters).widgets.map WidgetDescriptor.id =
        if context.options.emitWidgets then (exploreAll context ancestors nodes counters).identifiers
        else []
  | _, [], _ => by simp [exploreAll, Findings.identifiers]
  | ancestors, node :: rest, counters => by
      have first := ids_explore context ancestors node counters
      have behind := ids_exploreAll context ancestors rest
        (explore context ancestors node counters).counters
      rw [exploreAll]
      simp only [Findings.append, List.map_append, Findings.identifiers,
        List.filterMap_append] at *
      rw [first, behind]
      split <;> simp

end

/-! ## What is given -/

/-- The identifiers that a visit gives, and how it counts. -/
inductive Gives (context : PassContext) (node : Node) (counters : WidgetCounters) :
    Action × Findings → Prop where
  /-- None. -/
  | nothing {action : Action} {found : Findings} (counted : found.counters = counters)
      (none : found.identifiers = []) : Gives context node counters (action, found)
  /-- To a function, the one of a place inside the call. Nothing below is looked at. -/
  | function {found : Findings} {control : NativeWidget} {place : Nat}
      (counted : found.counters = (counters.next control.kind.name).2)
      (boundary : Boundary context.source.chars place)
      (inside : node.start ≤ place ∧ place < node.stop)
      (one : found.identifiers = [control.id (context.source.charOffset place)]) :
      Gives context node counters (.skip, found)
  /-- To a method, the one of the count so far. -/
  | method {found : Findings} {name : String}
      (counted : found.counters = (counters.next name).2)
      (one : found.identifiers =
        [methodWidgetId context.options.callerId name (counters.count name)]) :
      Gives context node counters (.descend, found)

theorem argument_inside {text : List Char} {node arguments first : Node}
    (wellFormed : node.WellFormed text) (member : arguments ∈ node.children)
    (isArguments : arguments.kind = .arguments) (given : first ∈ arguments.values) :
    Boundary text first.start ∧ node.start ≤ first.start ∧ first.start < node.stop := by
  have below := Node.mem_children_of_mem_values given
  have placed := (wellFormed.child member).placed
  have inNode := wellFormed.placed.inside arguments member
  have between := (placed.arguments isArguments).between first below
  have firstPlaced := ((wellFormed.child member).child below).placed
  have forward := firstPlaced.forward
  refine ⟨firstPlaced.first, ?_⟩
  simp only [ByteRange.Within, Node.start, Node.stop] at *
  omega

/-- A visit of a well-formed node gives at most one identifier. -/
theorem gives_look {context : PassContext} {node : Node}
    (wellFormed : node.WellFormed context.source.chars) (ancestors : List Node)
    (counters : WidgetCounters) :
    Gives context node counters (look context ancestors node counters) := by
  unfold look visit
  cases selected : Rule.select? context.registry
      (Shape.of context.source ancestors.head? node) with
  | none => exact .nothing rfl rfl
  | some rule =>
      cases Rule.matches_of_select? selected with
      | subLanguage _ _ _ _ _ known =>
          simp only [apply, known, tagged, literalCall, replace, report_eq]
          exact .nothing rfl rfl
      | tidal =>
          simp only [apply, tagged, literalCall, replace, report_eq]
          exact .nothing rfl rfl
      | templatePattern | stringPattern =>
          simp only [apply, pattern]
          split
          · exact .nothing rfl rfl
          · split <;>
              · simp only [literalCall, replace, report_eq]
                exact .nothing rfl rfl
      | @nativeWidget function arguments control kind _ argumentsPart _ isList _ given =>
          obtain ⟨first, rest, values⟩ := List.exists_cons_of_ne_nil given
          obtain ⟨boundary, inside⟩ := argument_inside wellFormed
            (Node.mem_children_of_child? argumentsPart)
            (wellFormed.kind_arguments kind argumentsPart isList)
            (values ▸ List.mem_cons_self : first ∈ arguments.values)
          obtain ⟨descriptor, described, id⟩ := exists_nativeDescriptor control context.source first
            rest (counters.next control.kind.name).1
          simp only [apply, nativeWidget, CallParts.values, values, described, replace, describe_eq]
          refine .function rfl boundary inside ?_
          rw [← id]
          rfl
      | widgetMethod =>
          simp only [apply, widgetMethod, replace, describe_eq]
          exact .method rfl rfl
      | awaitSamples =>
          simp only [apply, awaitSamples]
          split <;> exact .nothing rfl rfl
      | label => exact .nothing rfl rfl

/-- An identifier that a part of a walk has given: that of a function with its first argument in a
range, or that of a method with a count between those before and behind the part. -/
inductive Given (context : PassContext) (range : ByteRange) (before after : WidgetCounters) :
    String → Prop where
  | function {control : NativeWidget} {place : Nat}
      (boundary : Boundary context.source.chars place)
      (inside : range.start ≤ place ∧ place < range.stop) :
      Given context range before after (control.id (context.source.charOffset place))
  | method {name : String} {index : Nat}
      (counted : before.count name ≤ index ∧ index < after.count name) :
      Given context range before after (methodWidgetId context.options.callerId name index)

/-- The identifiers that a part of a walk has given. -/
structure Numbered (context : PassContext) (range : ByteRange) (before after : WidgetCounters)
    (identifiers : List String) : Prop where
  grows : ∀ name, before.count name ≤ after.count name
  given : ∀ id ∈ identifiers, Given context range before after id
  distinct : identifiers.Nodup

theorem numbered_nil (context : PassContext) (range : ByteRange) (counters : WidgetCounters) :
    Numbered context range counters counters [] :=
  ⟨fun _ => Nat.le_refl _, by simp, .nil⟩

section Walk

variable {chars : List Char} {registry : Registry} {options : Options}

/-- Identifiers given by two parts of a walk that follow each other are different: places lie apart,
and counts go on. -/
theorem given_ne {left right : ByteRange} {before middle after : WidgetCounters} {first second : String}
    (apart : left.stop ≤ right.start)
    (earlier : Given ⟨.ofChars chars, registry, options⟩ left before middle first)
    (later : Given ⟨.ofChars chars, registry, options⟩ right middle after second) :
    first ≠ second := by
  intro same
  cases earlier with
  | function boundary inside =>
      cases later with
      | function boundary' inside' =>
          have ordered := SourceText.charOffset_lt boundary boundary' (by omega)
          exact absurd (NativeWidget.offset_eq_of_id_eq same) (Nat.ne_of_lt ordered)
      | method => exact NativeWidget.id_ne_methodWidgetId _ _ _ _ _ same
  | method counted =>
      cases later with
      | function => exact NativeWidget.id_ne_methodWidgetId _ _ _ _ _ same.symm
      | method counted' =>
          obtain ⟨rfl, rfl⟩ := methodWidgetId_inj same
          omega

theorem Numbered.append {left right range : ByteRange} {before middle after : WidgetCounters}
    {first second : List String} (inLeft : left.Within range) (inRight : right.Within range)
    (apart : left.stop ≤ right.start)
    (earlier : Numbered ⟨.ofChars chars, registry, options⟩ left before middle first)
    (later : Numbered ⟨.ofChars chars, registry, options⟩ right middle after second) :
    Numbered ⟨.ofChars chars, registry, options⟩ range before after (first ++ second) := by
  simp only [ByteRange.Within] at inLeft inRight
  refine ⟨fun name => Nat.le_trans (earlier.grows name) (later.grows name), ?_, ?_⟩
  · intro id member
    rcases List.mem_append.mp member with inFirst | inSecond
    · cases earlier.given id inFirst with
      | function boundary inside => exact .function boundary (by omega)
      | @method name index counted =>
          have grown := later.grows name
          exact .method (by omega)
    · cases later.given id inSecond with
      | function boundary inside => exact .function boundary (by omega)
      | @method name index counted =>
          have grown := earlier.grows name
          exact .method (by omega)
  · refine List.nodup_append.mpr ⟨earlier.distinct, later.distinct, ?_⟩
    intro id inFirst other inSecond
    exact given_ne apart (earlier.given id inFirst) (later.given other inSecond)

theorem numbered_exploreAll {ancestors nodes : List Node} {start stop : Nat}
    (laid : Node.Laid chars stop start nodes)
    (each : ∀ node ∈ nodes, ∀ counters, Numbered ⟨.ofChars chars, registry, options⟩ node.range
      counters (explore ⟨.ofChars chars, registry, options⟩ ancestors node counters).counters
      (explore ⟨.ofChars chars, registry, options⟩ ancestors node counters).identifiers)
    (counters : WidgetCounters) :
    Numbered ⟨.ofChars chars, registry, options⟩ ⟨start, stop⟩ counters
      (exploreAll ⟨.ofChars chars, registry, options⟩ ancestors nodes counters).counters
      (exploreAll ⟨.ofChars chars, registry, options⟩ ancestors nodes counters).identifiers := by
  induction laid generalizing counters with
  | nil =>
      rw [exploreAll]
      exact numbered_nil _ _ _
  | @cons start node rest _ behind _ forward more inductionHypothesis =>
      have atEnd := more.le
      have first := each node List.mem_cons_self counters
      have later := inductionHypothesis
        (fun other member => each other (List.mem_cons_of_mem _ member))
        (explore ⟨.ofChars chars, registry, options⟩ ancestors node counters).counters
      have inRest : (⟨node.stop, stop⟩ : ByteRange).Within ⟨start, stop⟩ :=
        ⟨Nat.le_trans behind forward, Nat.le_refl _⟩
      rw [exploreAll, Findings.identifiers_append]
      exact Numbered.append ⟨behind, atEnd⟩ inRest (Nat.le_refl _) first later

/-- A walk over a well-formed tree gives no identifier twice. -/
theorem numbered_explore (node : Node) :
    node.WellFormed chars → ∀ (ancestors : List Node) (counters : WidgetCounters),
      Numbered ⟨.ofChars chars, registry, options⟩ node.range counters
        (explore ⟨.ofChars chars, registry, options⟩ ancestors node counters).counters
        (explore ⟨.ofChars chars, registry, options⟩ ancestors node counters).identifiers := by
  induction node using Node.induction with
  | step kind role range children inductionHypothesis =>
      intro wellFormed ancestors counters
      have below := numbered_exploreAll wellFormed.laid (fun child member =>
        inductionHypothesis child member (wellFormed.child member)
          (.mk kind role range children :: ancestors))
      have gives := @gives_look ⟨.ofChars chars, registry, options⟩ _ wellFormed ancestors counters
      cases looked : look ⟨.ofChars chars, registry, options⟩ ancestors
          (.mk kind role range children) counters with
      | mk action found =>
      rw [looked] at gives
      cases gives with
      | nothing counted none =>
          cases action with
          | skip =>
              rw [explore_of_skip looked, counted, none]
              exact numbered_nil _ _ _
          | descend =>
              rw [explore_of_descend looked, Findings.identifiers_append, none, counted]
              exact below counters
      | @function _ control place counted boundary inside one =>
          rw [explore_of_skip looked, counted, one]
          refine ⟨WidgetCounters.count_le_count_next _ _, ?_, by simp⟩
          simp only [List.mem_singleton, forall_eq]
          exact .function boundary inside
      | @method _ name counted one =>
          rw [explore_of_descend looked, Findings.identifiers_append, one, counted]
          -- The method itself stands for no place, so that it is as if before its parts.
          have own : Numbered ⟨.ofChars chars, registry, options⟩ ⟨range.start, range.start⟩ counters
              (counters.next name).2
              [methodWidgetId options.callerId name (counters.count name)] := by
            refine ⟨WidgetCounters.count_le_count_next _ _, ?_, by simp⟩
            simp only [List.mem_singleton, forall_eq]
            refine .method ⟨Nat.le_refl _, ?_⟩
            rw [WidgetCounters.count_next, if_pos rfl]
            exact Nat.lt_succ_self _
          have ahead : (⟨range.start, range.start⟩ : ByteRange).Within range :=
            ⟨Nat.le_refl _, wellFormed.placed.forward⟩
          exact Numbered.append ahead ⟨Nat.le_refl _, Nat.le_refl _⟩ (Nat.le_refl _) own (below _)

end Walk

/-! ## Whole programs -/

/-- The text of a small program with three controls: a method of what a method gives, and a function
among the arguments of the inner one. -/
def controlsText : List Char := "s.w(slider(1)).w()".toList

/-- Its tree. -/
def controlsTree : Node :=
  .mk .program none ⟨0, 18⟩ [.mk .expressionStatement none ⟨0, 18⟩ [
    .mk .callExpression none ⟨0, 18⟩ [
      .mk .memberExpression (some .function) ⟨0, 16⟩ [
        .mk .callExpression none ⟨0, 14⟩ [
          .mk .memberExpression (some .function) ⟨0, 3⟩ [.mk .identifier none ⟨0, 1⟩ [],
            .mk .propertyIdentifier (some .property) ⟨2, 3⟩ []],
          .mk .arguments (some .arguments) ⟨3, 14⟩ [.mk .callExpression none ⟨4, 13⟩ [
            .mk .identifier (some .function) ⟨4, 10⟩ [],
            .mk .arguments (some .arguments) ⟨10, 13⟩ [.mk .number none ⟨11, 12⟩ []]]]],
        .mk .propertyIdentifier (some .property) ⟨15, 16⟩ []],
      .mk .arguments (some .arguments) ⟨16, 18⟩ []]]]

/-- Whatever methods are registered and whoever calls, the controls of a well-formed tree have
identifiers of their own: those that are reported, and those that are put into the program whether
reported or not. -/
theorem identifiers_nodup (chars : List Char) (tree : Node) (options : Options) (registry : Registry)
    (wellFormed : tree.WellFormed chars) :
    let pass := ofTree ⟨.ofChars chars, registry, options⟩ tree
    (pass.widgets.map WidgetDescriptor.id).Nodup ∧
      (pass.edits.entries.filterMap Edit.identifier?).Nodup := by
  intro pass
  have distinct := (@numbered_explore chars registry options tree wellFormed [] []).distinct
  have reported := ids_explore ⟨.ofChars chars, registry, options⟩ [] tree []
  have widgets : pass.widgets =
      (explore ⟨.ofChars chars, registry, options⟩ [] tree []).widgets := by
    simp only [pass, ofTree_eq_absorb]
    rfl
  constructor
  · rw [widgets, reported]
    split
    · exact distinct
    · exact .nil
  · rw [entries_ofTree wellFormed]
    exact distinct

/-- Three controls, with a method registered under the name of a function. -/
theorem identifiers_nodup_controls :
    controlsTree.WellFormed controlsText ∧
      (ofTree ⟨.ofChars controlsText, { methods := ["slider", "w"] }, {}⟩ controlsTree).widgets.map
        WidgetDescriptor.id = ["_widget_w_0", "_widget_w_1", "slider_11"] ∧
      ((ofTree ⟨.ofChars controlsText, { methods := ["slider", "w"] }, {}⟩ controlsTree).widgets.map
        WidgetDescriptor.id).Nodup := by
  have wellFormed : controlsTree.WellFormed controlsText := by decide +kernel
  refine ⟨wellFormed, by decide +kernel, ?_⟩
  exact (identifiers_nodup controlsText controlsTree {} { methods := ["slider", "w"] } wellFormed).1

/-- The controls that are reported for a well-formed tree are those whose identifiers the
replacements carry, in the order of the replacements. If controls are not reported, the replacements
are the same. -/
theorem widgets_carry_identifiers (source : SourceText) (tree : Node) (options : Options)
    (registry : Registry) (wellFormed : tree.WellFormed source.chars)
    (asked : options.emitWidgets = true) :
    let shown := ofTree ⟨source, registry, options⟩ tree
    let hidden := ofTree ⟨source, registry, { options with emitWidgets := false }⟩ tree
    shown.edits.entries.Pairwise (fun earlier later => earlier.key.before later.key = true) ∧
      shown.edits.entries.filterMap Edit.identifier? = shown.widgets.map WidgetDescriptor.id ∧
      hidden.edits = shown.edits ∧ hidden.widgets = [] := by
  intro shown hidden
  have entries : shown.edits.entries = recorded ⟨source, registry, options⟩ tree :=
    entries_ofTree wellFormed
  have unchanged : hidden.edits = shown.edits :=
    @edits_ofTree_of_caller source registry { options with emitWidgets := false } options rfl tree
  refine ⟨?_, ?_, unchanged, ?_⟩
  · rw [entries]
    exact (pairwise_explore tree wellFormed [] []).imp fun inTurn => inTurn.1
  · have reported := ids_explore ⟨source, registry, options⟩ [] tree []
    rw [if_pos asked] at reported
    have widgets : shown.widgets = (explore ⟨source, registry, options⟩ [] tree []).widgets := by
      simp only [shown, ofTree_eq_absorb]
      rfl
    rw [entries, widgets, reported]
    rfl
  · simp only [hidden, ofTree_eq_asked]
    rfl

/-- Two methods and a function, in the order of their replacements. -/
theorem widgets_carry_identifiers_controls :
    controlsTree.WellFormed controlsText ∧
      (ofTree ⟨.ofChars controlsText, { methods := ["w"] }, {}⟩ controlsTree).edits.entries.filterMap
        Edit.identifier? = ["_widget_w_0", "_widget_w_1", "slider_11"] ∧
      (ofTree ⟨.ofChars controlsText, { methods := ["w"] }, {}⟩ controlsTree).edits.entries.filterMap
          Edit.identifier? =
        (ofTree ⟨.ofChars controlsText, { methods := ["w"] }, {}⟩ controlsTree).widgets.map
          WidgetDescriptor.id := by
  have wellFormed : controlsTree.WellFormed controlsText := by decide +kernel
  have carried := widgets_carry_identifiers (.ofChars controlsText) controlsTree {}
    { methods := ["w"] } wellFormed rfl
  exact ⟨wellFormed, by decide +kernel, carried.2.1⟩

end Pass

end PatternScript
