import Mathlib.Data.List.Forall2
import PatternScript.Proofs.Script.Closed
import PatternScript.Proofs.Transpile.Counting

/-!
Contract: the places in the text that controls are described by.

A function that is a control is described by its first argument: the characters it covers, their text,
and an identifier with the number of characters before them. Nothing inside such a call is looked at,
so none of the calls that are described stands inside another one. A method is described by the place
behind its call. Places are counted in characters, however many bytes each of them takes.

Owns: what is true of the descriptors of a program, call by call.
Does not own: how controls are counted.
-/

namespace PatternScript

open Script
open Text (byteLength Boundary)

namespace Script.Node

/-- Each argument of a call covers some text. -/
def ArgumentsCover (tree : Node) : Prop :=
  ∀ node ∈ tree.preorder, node.kind = .arguments → ∀ value ∈ node.values, value.start < value.stop

instance (tree : Node) : Decidable tree.ArgumentsCover :=
  inferInstanceAs (Decidable (∀ node ∈ tree.preorder, _))

/-- The node is a call of a function that is a control, with at least one argument. -/
structure CallsControl (source : SourceText) (node : Node) (control : NativeWidget)
    (arguments : Node) : Prop where
  isCall : node.kind = .callExpression
  function : ∃ function, node.child? .function = some function ∧ function.kind = .identifier ∧
    NativeWidget.ofCallee? (source.text function.range) = some control
  argumentsPart : node.child? .arguments = some arguments
  isList : arguments.kind ≠ .templateString
  given : arguments.values ≠ []

end Script.Node

namespace Script.Cursor

theorem Above.mem_preorder {start place : Cursor} (above : start.Above place) :
    place.focus ∈ start.focus.preorder := by
  induction above with
  | self => exact Node.mem_preorder_self _
  | child _ children inductionHypothesis =>
      refine Node.mem_preorder_trans inductionHypothesis
        (Node.mem_preorder_of_child ?_ (Node.mem_preorder_self _))
      simp [children]

end Script.Cursor

namespace Pass

/-- Nothing inside the call of a control is looked at. -/
theorem skip_of_callsControl {context : PassContext} {node arguments : Node} {control : NativeWidget}
    (calls : node.CallsControl context.source control arguments) (ancestors : List Node) (pass : Pass) :
    (visit context ancestors node pass).1 = .skip := by
  obtain ⟨isCall, ⟨function, functionPart, isName, isControl⟩, argumentsPart, isList, given⟩ := calls
  obtain ⟨first, rest, values⟩ := List.exists_cons_of_ne_nil given
  obtain ⟨widget, described, _⟩ := exists_described control context.source first rest
    (pass.counters.count control.kind.name)
  have shape : Shape.of context.source ancestors.head? node =
      .call (.identifier (context.source.text function.range)) ⟨node.range, function, arguments⟩
        (ancestors.head?.any fun above => above.kind == .awaitExpression) := by
    simp [Shape.of, isCall, Shape.ofCall, functionPart, argumentsPart, isList, Shape.calleeOf, isName]
  simp [visit, shape, Rule.select?, Rule.ofFunction?, isControl, CallParts.values, values, apply,
    nativeWidget, WidgetCounters.next, described]

/-- A descriptor stands for a call that has been visited. -/
inductive Anchored (context : PassContext) (call : Visit Pass) (widget : WidgetDescriptor) : Prop where
  /-- A function is anchored at its first argument, and stands inside no other control. -/
  | function {control : NativeWidget} {arguments first : Node} {rest : List Node}
      (calls : call.place.focus.CallsControl context.source control arguments)
      (outermost : ∀ above ∈ call.place.ancestors, ∀ other others,
        ¬ above.CallsControl context.source other others)
      (given : arguments.values = first :: rest)
      (kind : widget.kind = control.kind)
      (start : byteLength (context.source.chars.take widget.span.start) = first.start)
      (stop : byteLength (context.source.chars.take widget.span.stop) = first.stop)
      (nonempty : widget.span.start < widget.span.stop)
      (within : widget.span.stop ≤ context.source.chars.length)
      (value : widget.value = some (String.ofList
        ((context.source.chars.drop widget.span.start).take (widget.span.stop - widget.span.start))))
      (id : widget.id = control.kind.name ++ "_" ++ Nat.repr widget.span.start)
  /-- A method is anchored behind its call. -/
  | method {name : String}
      (calls : callsMethod context name call.place = true)
      (kind : widget.kind = .method name)
      (empty : widget.span.start = widget.span.stop)
      (behind : byteLength (context.source.chars.take widget.span.stop) = call.place.focus.stop)
      (within : widget.span.stop ≤ context.source.chars.length)
      (value : widget.value = none)

section Walk

variable {chars : List Char} {registry : Registry} {options : Options} {tree : Node}

/-- What describes the control at a place of a well-formed tree is anchored there. -/
theorem anchored_of_describes (wellFormed : tree.WellFormed chars) (covering : tree.ArgumentsCover)
    {call : Visit Pass} {number : Nat} {widget : WidgetDescriptor}
    (inTree : call.place.focus ∈ tree.preorder)
    (outermost : ∀ above ∈ call.place.ancestors, ∀ control arguments,
      ¬ above.CallsControl (.ofChars chars) control arguments)
    (describes : Describes ⟨.ofChars chars, registry, options⟩ call.place number widget) :
    Anchored ⟨.ofChars chars, registry, options⟩ call widget := by
  have nodeFormed := (wellFormed.of_mem_preorder _ inTree).1
  cases describes with
  | @function control parts first rest matched given kind span value id index =>
      cases Rule.matches_of_select? matched with
      | @nativeWidget function arguments _ isCall functionPart argumentsPart isName isList isControl
          isGiven =>
      have member := Node.mem_children_of_child? argumentsPart
      have isArgument : first ∈ arguments.values := by
        rw [CallParts.values] at given
        simp [given]
      have isArguments := nodeFormed.kind_arguments isCall argumentsPart isList
      have placed := ((nodeFormed.child member).child
        (Node.mem_children_of_mem_values isArgument)).placed
      have covers := covering arguments
        (Node.mem_preorder_trans inTree (Node.mem_preorder_of_child member (Node.mem_preorder_self _)))
        isArguments first isArgument
      have ordered := SourceText.charOffset_lt placed.first placed.last covers
      obtain ⟨start, stop, _, within, sliced⟩ :=
        SourceText.span_covers placed.first placed.last placed.forward
      exact .function ⟨isCall, ⟨function, functionPart, isName, isControl⟩, argumentsPart, isList, isGiven⟩
        outermost given kind (by rw [span]; exact start) (by rw [span]; exact stop)
        (by rw [span]; exact ordered) (by rw [span]; exact within)
        (by rw [value, span]; exact congrArg (some ∘ String.ofList) sliced.symm) id
  | @method name parts matched kind span value id index =>
      have called : callsMethod ⟨.ofChars chars, registry, options⟩ name call.place = true := by
        simp [callsMethod, matched]
      cases Rule.matches_of_select? matched with
      | widgetMethod =>
      have placed := nodeFormed.placed
      obtain ⟨_, stop, _, within, _⟩ := SourceText.span_covers placed.first placed.last placed.forward
      exact .method called kind (by rw [span]) (by rw [span]; exact stop) (by rw [span]; exact within)
        value

/-- Each visit describes the control that is called there, if one is. -/
theorem forall₂_widgets (context : PassContext) {related : Visit Pass → WidgetDescriptor → Prop}
    (calls : List (Visit Pass))
    (each : ∀ call ∈ calls, ∀ number widget, Describes context call.place number widget →
      related call widget) :
    List.Forall₂ related
      (if context.options.emitWidgets then calls.filter fun call => callsControl context call.place
        else [])
      (calls.flatMap fun call => (found context call).widgets) := by
  induction calls with
  | nil => split <;> exact .nil
  | cons call rest inductionHypothesis =>
      rw [List.forall_mem_cons] at each
      have behind := inductionHypothesis each.2
      rw [List.flatMap_cons, List.filter_cons]
      cases controls_found context call with
      | nothing none _ reported =>
          rw [reported, none]
          exact behind
      | one describes _ reported =>
          rw [reported, describes.callsControl]
          split at behind
          case isTrue asked =>
              simp only [asked, ↓reduceIte]
              exact .cons (each.1 _ _ describes) behind
          case isFalse notAsked =>
              simp only [notAsked, Bool.false_eq_true, ↓reduceIte]
              exact behind

/-- The controls that are described for a well-formed tree are those that are called at the visited
places, in the same order. A function is described by the characters of its first argument, which is
never inside another control, and a method by the place behind its call. -/
theorem widgets_anchored (chars : List Char) (tree : Node) (options : Options) (registry : Registry)
    (wellFormed : tree.WellFormed chars) (covering : tree.ArgumentsCover) :
    let context : PassContext := ⟨.ofChars chars, registry, options⟩
    List.Forall₂ (Anchored context)
      (if options.emitWidgets then
        (visits context tree).filter fun call => callsControl context call.place
      else [])
      (ofTree context tree).widgets := by
  intro context
  have ends := (Cursor.ofRoot tree).ends_traverse (visit context) {}
  rw [widgets_ofTree]
  refine forall₂_widgets context (visits context tree) ?_
  intro call member number widget describes
  have inTree := (Node.above_of_mem_visits _ _ _ _ call member).mem_preorder
  refine anchored_of_describes wellFormed covering inTree ?_ describes
  have atRoot : (Cursor.ofRoot tree).ancestors = [] := rfl
  refine ends.ancestors_lookedInto ?_ (by simp [Stage.ancestors, atRoot]) call member
  intro ancestors node pass descends control arguments calls
  rw [skip_of_callsControl calls] at descends
  cases descends

end Walk

/-- The text of a small program with a function among the arguments of a method. Behind a comment its
first argument is a string, and a second function stands inside it. -/
def nestedText : List Char := "é.w(slider(/* ü */ 'ß', slider(2)))".toList

/-- Its tree. -/
def nestedTree : Node :=
  .mk .program none ⟨0, 38⟩ [.mk .expressionStatement none ⟨0, 38⟩ [
    .mk .callExpression none ⟨0, 38⟩ [
      .mk .memberExpression (some .function) ⟨0, 4⟩ [.mk .identifier none ⟨0, 2⟩ [],
        .mk .propertyIdentifier (some .property) ⟨3, 4⟩ []],
      .mk .arguments (some .arguments) ⟨4, 38⟩ [.mk .callExpression none ⟨5, 37⟩ [
        .mk .identifier (some .function) ⟨5, 11⟩ [],
        .mk .arguments (some .arguments) ⟨11, 37⟩ [.mk .comment none ⟨12, 20⟩ [],
          .mk .string none ⟨21, 25⟩ [], .mk .callExpression none ⟨27, 36⟩ [
            .mk .identifier (some .function) ⟨27, 33⟩ [],
            .mk .arguments (some .arguments) ⟨33, 36⟩ [.mk .number none ⟨34, 35⟩ []]]]]]]]]

/-- The method is described behind its call and the outer function by its string; the inner function is
not described. -/
theorem widgets_anchored_nested :
    let context : PassContext := ⟨.ofChars nestedText, { methods := ["w"] }, {}⟩
    (nestedTree.WellFormed nestedText ∧ nestedTree.ArgumentsCover) ∧
      (ofTree context nestedTree).widgets.map (fun widget => (widget.span, widget.value, widget.id)) =
        [(⟨35, 35⟩, none, "_widget_w_0"), (⟨19, 22⟩, some "'ß'", "slider_19")] ∧
      List.Forall₂ (Anchored context)
        ((visits context nestedTree).filter fun call => callsControl context call.place)
        (ofTree context nestedTree).widgets := by
  intro context
  have wellFormed : nestedTree.WellFormed nestedText := by decide +kernel
  have covering : nestedTree.ArgumentsCover := by decide +kernel
  refine ⟨⟨wellFormed, covering⟩, by decide +kernel, ?_⟩
  exact widgets_anchored nestedText nestedTree {} { methods := ["w"] } wellFormed covering

end Pass

end PatternScript
