import PatternScript.Proofs.Script.Programs
import PatternScript.Proofs.Script.Visits
import PatternScript.Proofs.Transpile.Identifiers

/-!
Contract: how the controls of a program are counted.

All controls are counted in one table, by the name of their kind. A visit that counts a control also
describes it, and the number it gives is the count so far. So the numbers of the controls of one name
follow each other without a gap, in the order in which they are described. A function and a method of
one name are counted together: the number of a call of the method is that of the calls of the method
before it only as long as the function has not been called.

Owns: what a visit counts and describes, the counts along a walk, and the numbers they give.
Does not own: the places that controls are described by.
-/

namespace PatternScript

open Script

namespace Pass

/-! ## Controls of a program -/

/-- The rule that is selected at a place. -/
def ruleAt? (context : PassContext) (place : Cursor) : Option Rule :=
  Rule.select? context.registry (Shape.of context.source place.ancestors.head? place.focus)

/-- At the place a widget method of this name is called. -/
def callsMethod (context : PassContext) (name : String) (place : Cursor) : Bool :=
  match ruleAt? context place with
  | some (.widgetMethod method _) => method == name
  | _ => false

/-- At the place the function is called that is a control of this name. -/
def callsFunction (context : PassContext) (name : String) (place : Cursor) : Bool :=
  match ruleAt? context place with
  | some (.nativeWidget control _) => control.kind.name == name
  | _ => false

/-- At the place a control is called. -/
def callsControl (context : PassContext) (place : Cursor) : Bool :=
  match ruleAt? context place with
  | some (.nativeWidget _ _) | some (.widgetMethod _ _) => true
  | _ => false

/-- A descriptor describes the control at a place, with the number of controls before it. -/
inductive Describes (context : PassContext) (place : Cursor) (number : Nat)
    (widget : WidgetDescriptor) : Prop where
  | function {control : NativeWidget} {parts : CallParts} {first : Node} {rest : List Node}
      (matched : ruleAt? context place = some (.nativeWidget control parts))
      (given : parts.values = first :: rest)
      (kind : widget.kind = control.kind)
      (span : widget.span = context.source.span first.range)
      (value : widget.value = some (context.source.text first.range))
      (id : widget.id = control.id widget.span.start)
      (index : widget.index = some number)
  | method {name : String} {parts : CallParts}
      (matched : ruleAt? context place = some (.widgetMethod name parts))
      (kind : widget.kind = .method name)
      (span : widget.span =
        ⟨context.source.charOffset parts.range.stop, context.source.charOffset parts.range.stop⟩)
      (value : widget.value = none)
      (id : widget.id = methodWidgetId context.options.callerId name number)
      (index : widget.index = some number)

namespace Describes

variable {context : PassContext} {place : Cursor} {number : Nat} {widget : WidgetDescriptor}

theorem index (describes : Describes context place number widget) : widget.index = some number := by
  cases describes <;> assumption

theorem callsControl (describes : Describes context place number widget) :
    Pass.callsControl context place = true := by
  cases describes with
  | function matched => simp [Pass.callsControl, matched]
  | method matched => simp [Pass.callsControl, matched]

/-- The control at a place is a method or a function, and is called by the name of its kind. -/
theorem calls_iff (describes : Describes context place number widget) (name : String) :
    callsMethod context name place = true ∨ callsFunction context name place = true ↔
      widget.kind.name = name := by
  cases describes with
  | function matched _ kind => simp [callsMethod, callsFunction, matched, kind]
  | method matched kind => simp [callsMethod, callsFunction, matched, kind, WidgetKind.name]

end Describes

theorem not_calls_both (context : PassContext) (name : String) (place : Cursor) :
    ¬ (callsMethod context name place = true ∧ callsFunction context name place = true) := by
  unfold callsMethod callsFunction
  split <;> simp_all

theorem calls_neither {context : PassContext} {place : Cursor}
    (none : callsControl context place = false) (name : String) :
    callsMethod context name place = false ∧ callsFunction context name place = false := by
  unfold callsControl at none
  unfold callsMethod callsFunction
  split at none <;> simp_all

/-- Only a function of the language has the name of one. -/
theorem not_callsFunction {name : String} (other : NativeWidget.ofCallee? name = none)
    (context : PassContext) (place : Cursor) : callsFunction context name place = false := by
  unfold callsFunction
  split
  case h_1 control _ _ =>
      rw [beq_eq_false_iff_ne]
      rintro rfl
      cases control <;> simp [NativeWidget.ofCallee?, NativeWidget.kind, WidgetKind.name] at other
  case h_2 => rfl

/-! ## One visit -/

/-- What a visit counts and describes. -/
inductive Controls (context : PassContext) (place : Cursor) (counters : WidgetCounters)
    (found : Findings) : Prop where
  | nothing (none : callsControl context place = false) (counted : found.counters = counters)
      (reported : found.widgets = []) (identified : found.identifiers = [])
  | one {widget : WidgetDescriptor}
      (describes : Describes context place (counters.count widget.kind.name) widget)
      (counted : found.counters = (counters.next widget.kind.name).2)
      (reported : found.widgets = if context.options.emitWidgets then [widget] else [])
      (identified : found.identifiers = [widget.id])

/-- What a call of the visitor finds. -/
def found (context : PassContext) (call : Visit Pass) : Findings :=
  (look context call.place.ancestors call.place.focus call.state.counters).2

theorem exists_described (control : NativeWidget) (source : SourceText) (first : Node)
    (rest : List Node) (number : Nat) :
    ∃ widget, nativeDescriptor? control source (first :: rest) number = some widget ∧
      widget.kind = control.kind ∧ widget.span = source.span first.range ∧
      widget.value = some (source.text first.range) ∧ widget.id = control.id widget.span.start ∧
      widget.index = some number := by
  cases control <;> exact ⟨_, rfl, rfl, rfl, rfl, rfl, rfl⟩

/-- A visit counts a control exactly if it describes one. -/
theorem controls_found (context : PassContext) (call : Visit Pass) :
    Controls context call.place call.state.counters (found context call) := by
  obtain ⟨place, state⟩ := call
  unfold found look visit
  cases selected : Rule.select? context.registry
      (Shape.of context.source place.ancestors.head? place.focus) with
  | none => exact .nothing (by simp [callsControl, ruleAt?, selected]) rfl rfl rfl
  | some rule =>
      have matched : ruleAt? context place = some rule := selected
      cases Rule.matches_of_select? selected with
      | subLanguage _ _ _ _ _ known =>
          simp only [apply, known, tagged, literalCall, replace, report_eq]
          exact .nothing (by simp [callsControl, matched]) rfl rfl rfl
      | tidal =>
          simp only [apply, tagged, literalCall, replace, report_eq]
          exact .nothing (by simp [callsControl, matched]) rfl rfl rfl
      | templatePattern | stringPattern =>
          simp only [apply, pattern]
          split
          · exact .nothing (by simp [callsControl, matched]) rfl rfl rfl
          · split <;>
              · simp only [literalCall, replace, report_eq]
                exact .nothing (by simp [callsControl, matched]) rfl rfl rfl
      | @nativeWidget function arguments control _ _ _ _ _ _ given =>
          obtain ⟨first, rest, values⟩ := List.exists_cons_of_ne_nil given
          obtain ⟨widget, described, kind, span, value, id, index⟩ := exists_described control
            context.source first rest (state.counters.count control.kind.name)
          have name : control.kind.name = widget.kind.name := by rw [kind]
          simp only [apply, nativeWidget, WidgetCounters.next, CallParts.values, values, described,
            replace, describe_eq]
          rw [name] at index ⊢
          exact .one (.function matched values kind span value id index) rfl rfl rfl
      | widgetMethod =>
          simp only [apply, widgetMethod, replace, describe_eq]
          exact .one (.method matched rfl rfl rfl rfl rfl) rfl rfl rfl
      | awaitSamples =>
          simp only [apply, awaitSamples]
          split <;> exact .nothing (by simp [callsControl, matched]) rfl rfl rfl
      | label => exact .nothing (by simp [callsControl, matched]) rfl rfl rfl

/-- What a visit reports describes the control at its place. -/
theorem describes_of_mem_found {context : PassContext} {call : Visit Pass} {widget : WidgetDescriptor}
    (member : widget ∈ (found context call).widgets) :
    Describes context call.place (call.state.counters.count widget.kind.name) widget := by
  cases controls_found context call with
  | nothing _ _ reported =>
      rw [reported] at member
      cases member
  | one describes _ reported =>
      rw [reported] at member
      split at member
      · rw [List.mem_singleton.mp member]
        exact describes
      · cases member

/-- How a visit moves the count of a name. -/
theorem count_found (context : PassContext) (call : Visit Pass) (name : String) :
    (found context call).counters.count name = call.state.counters.count name +
      ((if callsMethod context name call.place then 1 else 0) +
        if callsFunction context name call.place then 1 else 0) := by
  cases controls_found context call with
  | nothing none counted =>
      simp [counted, calls_neither none name]
  | @one widget describes counted =>
      have called := describes.calls_iff name
      have notBoth := not_calls_both context name call.place
      rw [counted, WidgetCounters.count_next]
      by_cases same : name = widget.kind.name
      · subst same
        rcases called.mpr rfl with isMethod | isFunction
        · simp_all
        · simp_all
      · rw [if_neg same]
        have neither := mt called.mp (Ne.symm same)
        simp_all

/-! ## Counts along a walk -/

/-- The calls of the visitor in the walk over a tree. -/
def visits (context : PassContext) (tree : Node) : List (Visit Pass) :=
  (Cursor.ofRoot tree).visits (visit context) {}

theorem threaded_ofTree (context : PassContext) (tree : Node) :
    Threaded (visit context) {} (visits context tree) (ofTree context tree) :=
  ((Cursor.ofRoot tree).ends_traverse (visit context) {}).threaded

theorem visit_eq_found (context : PassContext) (place : Cursor) (pass : Pass) :
    (visit context place.ancestors place.focus pass).2 = pass.absorb (found context ⟨place, pass⟩) := by
  rw [visit_eq_absorb]
  rfl

section Walk

variable {context : PassContext} {first last : Pass} {calls : List (Visit Pass)}

/-- The count of a name goes up by one with each method and each function of this name. -/
theorem count_of_threaded (threaded : Threaded (visit context) first calls last) (name : String) :
    last.counters.count name = first.counters.count name +
      (calls.countP (fun call => callsMethod context name call.place) +
        calls.countP fun call => callsFunction context name call.place) := by
  induction threaded with
  | nil => simp
  | @cons place state last calls _ inductionHypothesis =>
      have here := count_found context ⟨place, state⟩ name
      rw [inductionHypothesis, visit_eq_found, absorb_counters, here, List.countP_cons,
        List.countP_cons]
      dsimp only
      omega

theorem widgets_of_threaded (threaded : Threaded (visit context) first calls last) :
    last.widgets = first.widgets ++ calls.flatMap fun call => (found context call).widgets := by
  induction threaded with
  | nil => simp
  | @cons place state last calls _ inductionHypothesis =>
      rw [inductionHypothesis, visit_eq_found, List.flatMap_cons, ← List.append_assoc]
      rfl

/-- The controls that are described are those that the visits describe. -/
theorem widgets_ofTree (context : PassContext) (tree : Node) :
    (ofTree context tree).widgets =
      (visits context tree).flatMap fun call => (found context call).widgets := by
  simpa using widgets_of_threaded (threaded_ofTree context tree)

/-- The numbers of the described controls of each name are those up to the count of the name. -/
def Ranked (pass : Pass) : Prop :=
  ∀ name, (pass.widgets.filter fun widget => widget.kind.name == name).map WidgetDescriptor.index =
    (List.range (pass.counters.count name)).map some

theorem Ranked.visit (asked : context.options.emitWidgets = true) (place : Cursor) {pass : Pass}
    (ranked : pass.Ranked) : (visit context place.ancestors place.focus pass).2.Ranked := by
  intro name
  have before := ranked name
  rw [visit_eq_found]
  simp only [absorb, List.filter_append, List.map_append]
  cases controls_found context ⟨place, pass⟩ with
  | nothing _ counted reported => rw [counted, reported, before, List.filter_nil, List.map_nil,
      List.append_nil]
  | @one widget describes counted reported =>
      rw [counted, reported, if_pos asked, before, WidgetCounters.count_next]
      by_cases same : name = widget.kind.name
      · subst same
        rw [if_pos rfl, List.range_succ, List.map_append]
        simp [describes.index]
      · rw [if_neg same]
        simp [Ne.symm same]

theorem ranked_of_threaded (asked : context.options.emitWidgets = true)
    (threaded : Threaded (Pass.visit context) first calls last) (ranked : first.Ranked) :
    last.Ranked := by
  induction threaded with
  | nil => exact ranked
  | cons _ inductionHypothesis => exact inductionHypothesis (ranked.visit asked _)

/-- In a list of controls in turn, the number of a control is that of the controls of its name before
it. -/
theorem Ranked.index_eq {pass : Pass} (ranked : pass.Ranked) {before after : List WidgetDescriptor}
    {widget : WidgetDescriptor} (widgets : pass.widgets = before ++ widget :: after) :
    widget.index = some (before.countP fun other => other.kind.name == widget.kind.name) := by
  have numbers := ranked widget.kind.name
  rw [widgets, List.filter_append, List.map_append, List.filter_cons_of_pos (by simp),
    List.map_cons] at numbers
  have here : ((List.range (pass.counters.count widget.kind.name)).map some)[
      (before.filter fun other => other.kind.name == widget.kind.name).length]? =
        some widget.index := by
    rw [← numbers]
    simp
  rw [List.getElem?_map] at here
  obtain ⟨number, isNumber, index⟩ := Option.map_eq_some_iff.mp here
  obtain ⟨inRange, rfl⟩ := List.getElem?_eq_some_iff.mp isNumber
  rw [← index, List.getElem_range, List.countP_eq_length_filter]

end Walk

/-- In every program the number of a control that is described is that of the controls before it whose
kind has the same name, so that the numbers of each name go 0, 1, 2 and so on. No visit counts without
describing: it leaves both alone, or describes one control and counts its name. -/
theorem index_eq_rank (context : PassContext) (tree : Node)
    (asked : context.options.emitWidgets = true) :
    (∀ before widget after, (ofTree context tree).widgets = before ++ widget :: after →
      widget.index = some (before.countP fun other => other.kind.name == widget.kind.name)) ∧
    (∀ name,
      ((ofTree context tree).widgets.filter fun widget => widget.kind.name == name).map
          WidgetDescriptor.index =
        (List.range ((ofTree context tree).widgets.countP fun widget =>
          widget.kind.name == name)).map some) ∧
    ∀ call ∈ visits context tree,
      let after := (visit context call.place.ancestors call.place.focus call.state).2
      after.counters = call.state.counters ∧ after.widgets = call.state.widgets ∨
        ∃ widget, after.counters = (call.state.counters.next widget.kind.name).2 ∧
          after.widgets = call.state.widgets ++ [widget] := by
  have ranked : (ofTree context tree).Ranked :=
    ranked_of_threaded asked (threaded_ofTree context tree) fun _ => rfl
  refine ⟨fun _ _ _ => ranked.index_eq, ?_, ?_⟩
  · intro name
    have counted := congrArg List.length (ranked name)
    rw [List.length_map, List.length_map, List.length_range, ← List.countP_eq_length_filter] at counted
    rw [ranked name, counted]
  · intro call _ after
    simp only [after, visit_eq_found]
    cases controls_found context call with
    | nothing _ counted reported => exact .inl ⟨counted, by simp [absorb, reported]⟩
    | @one widget _ counted reported =>
        exact .inr ⟨widget, counted, by simp [absorb, reported, asked]⟩

/-- The text of a small program that calls a function and a method of the same name. -/
def namesakesText : List Char := "slider(1); x.slider()".toList

/-- Its tree. -/
def namesakesTree : Node :=
  .mk .program none ⟨0, 21⟩ [
    .mk .expressionStatement none ⟨0, 10⟩ [.mk .callExpression none ⟨0, 9⟩ [
      .mk .identifier (some .function) ⟨0, 6⟩ [],
      .mk .arguments (some .arguments) ⟨6, 9⟩ [.mk .number none ⟨7, 8⟩ []]]],
    .mk .expressionStatement none ⟨11, 21⟩ [.mk .callExpression none ⟨11, 21⟩ [
      .mk .memberExpression (some .function) ⟨11, 19⟩ [.mk .identifier none ⟨11, 12⟩ [],
        .mk .propertyIdentifier (some .property) ⟨13, 19⟩ []],
      .mk .arguments (some .arguments) ⟨19, 21⟩ []]]]

/-- The function and the method are counted together. -/
theorem index_eq_rank_namesakes :
    let pass := ofTree ⟨.ofChars namesakesText, { methods := ["slider"] }, {}⟩ namesakesTree
    pass.widgets.map WidgetDescriptor.kind = [.slider, .method "slider"] ∧
      (pass.widgets.filter fun widget => widget.kind.name == "slider").map WidgetDescriptor.index =
        [some 0, some 1] := by
  have ranked := (index_eq_rank ⟨.ofChars namesakesText, { methods := ["slider"] }, {}⟩
    namesakesTree rfl).2.1 "slider"
  refine ⟨by decide +kernel, ?_⟩
  rw [ranked]
  decide +kernel

/-! ## The identifiers of methods -/

/-- The identifiers that are given to the calls of a method, in the order of the walk. -/
def methodIdentifiers (context : PassContext) (tree : Node) (name : String) : List String :=
  ((visits context tree).filter fun call => callsMethod context name call.place).flatMap
    fun call => (found context call).identifiers

/-- The call of a method gets the identifier of the count so far, and is described by it. -/
theorem found_of_callsMethod {context : PassContext} {name : String} {call : Visit Pass}
    (called : callsMethod context name call.place = true) :
    (found context call).identifiers =
        [methodWidgetId context.options.callerId name (call.state.counters.count name)] ∧
      (found context call).widgets.map (fun widget => (widget.kind, widget.id, widget.index)) =
        if context.options.emitWidgets then
          [(.method name, methodWidgetId context.options.callerId name (call.state.counters.count name),
            some (call.state.counters.count name))]
        else [] := by
  cases controls_found context call with
  | nothing none =>
      rw [(calls_neither none name).1] at called
      cases called
  | @one widget describes counted reported identified =>
      obtain same := (describes.calls_iff name).mp (.inl called)
      rw [same] at describes
      rw [identified, reported]
      cases describes with
      | function matched => simp [callsMethod, matched] at called
      | @method method _ matched kind _ _ id index =>
          rw [kind] at same
          obtain rfl : method = name := same
          rw [id]
          split <;> simp [kind, id, index]

/-- The calls of a method get the identifiers of the counts that they find. -/
theorem methodIdentifiers_eq (context : PassContext) (tree : Node) (name : String) :
    methodIdentifiers context tree name =
      (((visits context tree).filter fun call => callsMethod context name call.place).map
        fun call => call.state.counters.count name).map
          (methodWidgetId context.options.callerId name) := by
  rw [List.map_map, List.map_eq_flatMap, methodIdentifiers, List.flatMap_def, List.flatMap_def]
  refine congrArg List.flatten (List.map_congr_left fun call member => ?_)
  exact (found_of_callsMethod (List.mem_filter.mp member).2).1

section Turns

variable {context : PassContext} {first last : Pass} {calls : List (Visit Pass)}

theorem count_le_of_mem (threaded : Threaded (visit context) first calls last) (name : String)
    {call : Visit Pass} (member : call ∈ calls) :
    first.counters.count name ≤ call.state.counters.count name := by
  obtain ⟨before, after, rfl⟩ := List.append_of_mem member
  rw [count_of_threaded threaded.upTo name]
  exact Nat.le_add_right _ _

/-- Once a number has been passed over, the numbers that follow it are given to no call of a method
unless there is none. -/
theorem follows_beyond_iff {name : String} {number : Nat}
    (beyond : ∀ call ∈ calls, number < call.state.counters.count name) :
    (calls.filter fun call => callsMethod context name call.place).map
        (fun call => call.state.counters.count name) =
      List.range' number (calls.countP fun call => callsMethod context name call.place) ↔
    ∀ call ∈ calls, callsMethod context name call.place = false := by
  constructor
  · intro follow call member
    rw [← Bool.not_eq_true]
    intro isMethod
    have some : 0 < calls.countP fun call => callsMethod context name call.place :=
      List.countP_pos_iff.mpr ⟨call, member, isMethod⟩
    have expected := List.mem_range'_1.mpr ⟨Nat.le_refl number, Nat.lt_add_of_pos_right some⟩
    rw [← follow] at expected
    obtain ⟨other, isOther, same⟩ := List.mem_map.mp expected
    exact absurd same (Nat.ne_of_gt (beyond other (List.mem_filter.mp isOther).1))
  · intro noMethod
    have nothing : (calls.filter fun call => callsMethod context name call.place) = [] :=
      List.filter_eq_nil_iff.mpr fun call member => by simp [noMethod call member]
    rw [List.countP_eq_length_filter, nothing]
    rfl

/-- The numbers that the calls of a method get follow each other exactly if the function of that name is
called before none of them. -/
theorem numbers_follow_iff (threaded : Threaded (visit context) first calls last) (name : String) :
    (calls.filter fun call => callsMethod context name call.place).map
        (fun call => call.state.counters.count name) =
      List.range' (first.counters.count name)
        (calls.countP fun call => callsMethod context name call.place) ↔
    calls.Pairwise fun earlier later =>
      callsFunction context name earlier.place = true →
        callsMethod context name later.place = false := by
  induction threaded with
  | nil => simp
  | @cons place state last calls rest inductionHypothesis =>
      have here := count_found context ⟨place, state⟩ name
      have beyond := fun call => @count_le_of_mem _ _ _ _ rest name call
      rw [visit_eq_found, absorb_counters, here] at inductionHypothesis beyond
      rw [List.pairwise_cons]
      simp only [List.filter_cons, List.countP_cons] at inductionHypothesis beyond ⊢
      by_cases isMethod : callsMethod context name place = true
      · have noFunction : ¬ callsFunction context name place = true :=
          fun isFunction => not_calls_both context name place ⟨isMethod, isFunction⟩
        simp only [isMethod, noFunction, ↓reduceIte, Bool.false_eq_true] at inductionHypothesis ⊢
        rw [List.map_cons, List.range'_succ, List.cons.injEq, inductionHypothesis]
        simp
      · by_cases isFunction : callsFunction context name place = true
        · -- The count has gone up without a call of the method, so that a number is passed over.
          simp only [isMethod, isFunction, ↓reduceIte, Bool.false_eq_true, Nat.zero_add,
            Nat.add_zero, forall_const] at beyond ⊢
          rw [follows_beyond_iff beyond]
          refine ⟨fun noMethod => ⟨noMethod, ?_⟩, And.left⟩
          exact List.pairwise_of_forall_mem_list fun _ _ later member _ => noMethod later member
        · simp only [isMethod, isFunction, ↓reduceIte, Bool.false_eq_true] at inductionHypothesis ⊢
          simpa using inductionHypothesis

end Turns

/-- The calls of a method are numbered by the calls before them of the method and of the function of
the same name, if there is one. The number stands in the identifier that the call gets and in its
descriptor. So the calls of a method get the identifiers with 0, 1, 2 and so on exactly if the function
of its name is called before none of them, which holds for every method that has not the name of a
function. -/
theorem methodIdentifiers_count (context : PassContext) (tree : Node) (name : String) :
    (∀ before call after, visits context tree = before ++ call :: after →
      callsMethod context name call.place = true →
        let number := before.countP (fun earlier => callsMethod context name earlier.place) +
          before.countP fun earlier => callsFunction context name earlier.place
        let id := methodWidgetId context.options.callerId name number
        (found context call).identifiers = [id] ∧
          (found context call).widgets.map (fun widget => (widget.kind, widget.id, widget.index)) =
            if context.options.emitWidgets then [(.method name, id, some number)] else []) ∧
    (ofTree context tree).widgets =
      (visits context tree).flatMap (fun call => (found context call).widgets) ∧
    (methodIdentifiers context tree name =
        (List.range ((visits context tree).countP fun call => callsMethod context name call.place)).map
          (methodWidgetId context.options.callerId name) ↔
      (visits context tree).Pairwise fun earlier later =>
        callsFunction context name earlier.place = true →
          callsMethod context name later.place = false) ∧
    (NativeWidget.ofCallee? name = none →
      (visits context tree).Pairwise fun earlier later =>
        callsFunction context name earlier.place = true →
          callsMethod context name later.place = false) := by
  have threaded := threaded_ofTree context tree
  refine ⟨?_, widgets_ofTree context tree, ?_, ?_⟩
  · intro before call after shown called number id
    rw [shown] at threaded
    have counted := count_of_threaded threaded.upTo name
    have nothing : ({} : Pass).counters.count name = 0 := rfl
    rw [nothing, Nat.zero_add] at counted
    have given := found_of_callsMethod called
    rwa [counted] at given
  · rw [← numbers_follow_iff threaded name, methodIdentifiers_eq, List.range_eq_range']
    exact List.map_inj_right fun first second same => (methodWidgetId_inj same).2
  · intro other
    exact List.pairwise_of_forall fun earlier later isFunction => by
      rw [not_callsFunction other] at isFunction
      exact absurd isFunction Bool.false_ne_true

/-- Two calls of a method with a call of a function among them. -/
theorem methodIdentifiers_count_controls :
    methodIdentifiers ⟨.ofChars controlsText, { methods := ["slider", "w"] }, {}⟩ controlsTree "w" =
      ["_widget_w_0", "_widget_w_1"] := by
  obtain ⟨_, _, inTurn, otherwise⟩ := methodIdentifiers_count
    ⟨.ofChars controlsText, { methods := ["slider", "w"] }, {}⟩ controlsTree "w"
  rw [inTurn.mpr (otherwise rfl)]
  decide +kernel

/-- A method that has the name of a function is called once, behind a call of the function, and gets
the identifier of a second call. -/
theorem first_call_numbered_second :
    let context : PassContext := ⟨.ofChars namesakesText, { methods := ["slider"] }, {}⟩
    (visits context namesakesTree).countP (fun call => callsMethod context "slider" call.place) = 1 ∧
      methodIdentifiers context namesakesTree "slider" = ["_widget_slider_1"] ∧
    ∃ result, transpile "slider(1); x.slider()" {} { methods := ["slider"] } = .ok result ∧
      result.output = "sliderWithID('slider_7', 1); return x.slider('_widget_slider_1')" ∧
      result.widgets.map (List.map fun widget => (widget.kind, widget.id, widget.index)) =
        some [(.slider, "slider_7", some 0), (.method "slider", "_widget_slider_1", some 1)] := by
  obtain ⟨result, transpiled, holding⟩ := @exists_transpile_of_leading
    "slider(1); x.slider()".toList {} { methods := ["slider"] }
    (fun result =>
      result.output = "sliderWithID('slider_7', 1); return x.slider('_widget_slider_1')" ∧
      result.widgets.map (List.map fun widget => (widget.kind, widget.id, widget.index)) =
        some [(.slider, "slider_7", some 0), (.method "slider", "_widget_slider_1", some 1)])
    (by decide +kernel)
  rw [String.ofList_toList] at transpiled
  rw [decide_eq_true_eq] at holding
  exact ⟨by decide +kernel, by decide +kernel, result, transpiled, holding⟩

end Pass

end PatternScript
