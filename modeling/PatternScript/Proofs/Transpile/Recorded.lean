import PatternScript.Proofs.Edits.Trace
import PatternScript.Proofs.Script.WellFormed
import PatternScript.Proofs.Transpile.Findings
import PatternScript.Proofs.Transpile.Rewriting
import PatternScript.Proofs.Transpile.Selection

/-!
Contract: what one visit of a well-formed node can do.

A visit records nothing, or one replacement. The replacement takes the place of the whole node and
nothing below is looked at, or it wraps parts of the node that are looked at afterwards. For each of
these ways the text that the node asks for is stated beside the replacement.

Owns: the five ways, and that every visit is one of them.
Does not own: what happens below the node.
-/

namespace PatternScript

open Script Rewriting Rewritten
open Text (Boundary)

namespace Script.Node

/-- The key of a replacement of the whole node. -/
def key (node : Node) : EditKey :=
  ⟨node.start, node.stop⟩

end Script.Node

/-- A part of the text that covers something and can be written by itself, inside a node. -/
structure PartOf (text : List Char) (node : Node) (range : ByteRange) : Prop where
  within : range.Within node.range
  covers : range.start < range.stop
  first : Boundary text range.start
  last : Boundary text range.stop

namespace Pass

/-- What a visit answers and finds, and how the text of the node is made. -/
inductive Recorded (context : PassContext) (node : Node) :
    Action × Findings → Manner × WidgetCounters → Prop where
  /-- The node keeps its own text. -/
  | nothing {found : Findings} {counters : WidgetCounters}
      (counted : found.counters = counters)
      (none : found.edits = []) :
      Recorded context node (.descend, found)
        (.build (weave context.source node.start node.stop), counters)
  /-- The node is replaced as a whole. -/
  | folded {found : Findings} {counters : WidgetCounters} {emission : Emission}
      {text : List Char}
      (counted : found.counters = counters)
      (covers : node.start < node.stop)
      (one : found.edits = [⟨node.key, emission⟩])
      (parts : ∀ range ∈ emission.sources, PartOf context.source.chars node range)
      (writes : ∀ write : Edits.RangeWriter,
        (∀ range ∈ emission.sources, write range node.key = .ok (context.source.slice range)) →
          Edits.writeEmission write node.key emission = .ok text) :
      Recorded context node (.skip, found) (.fold text, counters)
  /-- The call gets an identifier as its first argument. -/
  | identified {found : Findings} {counters : WidgetCounters} {function arguments : Node}
      {id : String}
      (counted : found.counters = counters)
      (isCall : node.kind = .callExpression)
      (functionPart : node.child? .function = some function)
      (argumentsPart : node.child? .arguments = some arguments)
      (isList : arguments.kind ≠ .templateString)
      (one : found.edits =
        [⟨node.key, .callBefore (.source function.range) (.identifier id)
          (CallParts.inner? ⟨node.range, function, arguments⟩)⟩]) :
      Recorded context node (.descend, found)
        (.build fun parts =>
          identifiedCall (textOf .function parts) id
            (betweenParentheses (textOf .arguments parts)), counters)
  /-- The call is awaited. -/
  | awaiting {found : Findings} {counters : WidgetCounters} {standsAlone : Bool}
      (counted : found.counters = counters)
      (isCall : node.kind = .callExpression)
      (one : found.edits =
        [⟨node.key, if standsAlone then .await (.source node.range)
          else .parens (.await (.source node.range))⟩]) :
      Recorded context node (.descend, found)
        (.build fun parts =>
          awaited standsAlone (weave context.source node.start node.stop parts), counters)
  /-- The labelled expression is named. -/
  | naming {found : Findings} {counters : WidgetCounters} {body expression : Node}
      {name : String}
      (counted : found.counters = counters)
      (isLabeled : node.kind = .labeledStatement)
      (bodyPart : node.child? .body = some body)
      (isExpression : body.kind = .expressionStatement)
      (firstValue : body.values.head? = some expression)
      (one : found.edits =
        [⟨⟨node.start, expression.stop⟩,
          .method (if expression.kind.isMemberSafe then .source expression.range
            else .parens (.source expression.range)) "p" [.quoted name]⟩]) :
      Recorded context node (.descend, found)
        (.build (labeled context.source node.stop name), counters)

section Folded

variable {context : PassContext} {node : Node}

/-- A call covers the text of its function. -/
theorem covers_of_call (wellFormed : node.WellFormed context.source.chars)
    (isCall : node.kind = .callExpression) : node.start < node.stop := by
  obtain ⟨function, arguments, _, _, two, covers, _⟩ := wellFormed.exists_call_parts isCall
  have within := wellFormed.placed.inside function
    (Node.mem_children_of_mem_values (by simp [two]))
  simp only [ByteRange.Within, Node.start, Node.stop] at *
  omega

/-- A template literal with a tag becomes a call with its raw text. -/
theorem recorded_tagged (covers : node.start < node.stop) (template : Node) (callee : String)
    (locate : List Char → Nat → List Span) (counters : WidgetCounters) :
    Recorded context node
      (Findings.ofVisit (tagged context node template callee locate { counters := counters }))
      (.ofTagged context callee template, counters) := by
  simp only [tagged, literalCall, replace, Findings.ofVisit, Findings.ofPass, report_eq]
  refine .folded rfl covers rfl ?_ ?_
  · simp [Emission.callWith, Emission.sources, Arguments.sources, Emission.sourcesAll]
  · intro write _
    simp [Emission.callWith, Edits.writeEmission, Edits.writeArguments, Edits.writeItems,
      Rewriting.literalCall, bind, Except.bind, pure, Except.pure]

/-- A literal without a tag becomes a call with the literal, or stays. -/
theorem recorded_pattern (covers : node.start < node.stop) (value : List Char)
    (emission : Emission) (literal : List Char) (counters : WidgetCounters)
    (parts : ∀ range ∈ emission.sources, PartOf context.source.chars node range)
    (writes : ∀ write : Edits.RangeWriter,
      (∀ range ∈ emission.sources, write range node.key = .ok (context.source.slice range)) →
        Edits.writeEmission write node.key emission = .ok literal) :
    Recorded context node
      (Findings.ofVisit (pattern context node value emission { counters := counters }))
      (.ofLiteral context node value literal, counters) := by
  have sources : ∀ callee offset,
      (Emission.callWith (.name callee) [emission, .number offset]).sources = emission.sources := by
    simp [Emission.callWith, Emission.sources, Arguments.sources, Emission.sourcesAll]
  have writesCall : ∀ (callee : String) (offset : Nat) (write : Edits.RangeWriter),
      (∀ range ∈ emission.sources, write range node.key = .ok (context.source.slice range)) →
        Edits.writeEmission write node.key
            (.callWith (.name callee) [emission, .number offset]) =
          .ok (Rewriting.literalCall callee literal offset) := by
    intro callee offset write written
    simp [Emission.callWith, Edits.writeEmission, Edits.writeArguments, Edits.writeItems,
      Rewriting.literalCall, writes write written, bind, Except.bind, pure, Except.pure]
  simp only [pattern, Manner.ofLiteral]
  split
  · exact .nothing rfl rfl
  · simp only [literalCall, replace, Findings.ofVisit, Findings.ofPass, report_eq]
    cases context.registry.defaultLanguage? with
    | none =>
        refine .folded rfl covers rfl ?_ ?_
        · rw [sources]
          exact parts
        · rw [sources]
          exact writesCall _ _
    | some language =>
        refine .folded rfl covers rfl ?_ ?_
        · rw [sources]
          exact parts
        · rw [sources]
          exact writesCall _ _

/-- The text between the parentheses of a call: a part of the node if there is any, and the text of
the arguments without its first and last character. -/
theorem inner?_arguments {arguments : Node}
    (wellFormed : node.WellFormed context.source.chars) (member : arguments ∈ node.children)
    (isArguments : arguments.kind = .arguments) (function : Node) :
    (∀ range, CallParts.inner? ⟨node.range, function, arguments⟩ = some range →
      range = ⟨arguments.start + 1, arguments.stop - 1⟩ ∧
        PartOf context.source.chars node range ∧
        context.source.slice range =
          betweenParentheses (context.source.slice arguments.range)) ∧
    (CallParts.inner? ⟨node.range, function, arguments⟩ = none →
      arguments.stop = arguments.start + 2 ∧
        betweenParentheses (context.source.slice arguments.range) = []) := by
  have placed := (wellFormed.child member).placed
  obtain ⟨inner, sliced, sliceInner, first, last, long⟩ :=
    (placed.arguments isArguments).exists_slice_inner placed rfl rfl
  have between : betweenParentheses (context.source.slice arguments.range) = inner := by
    simp [betweenParentheses, SourceText.slice, sliced]
  have within := wellFormed.placed.inside arguments member
  rw [between]
  simp only [CallParts.inner?, ByteRange.Within, Node.start, Node.stop] at *
  constructor
  · intro range given
    split at given
    · rename_i forward
      obtain rfl := Option.some.inj given
      refine ⟨rfl, ⟨⟨?_, ?_⟩, forward, first, last⟩, sliceInner⟩ <;>
        simp only <;> omega
    · simp at given
  · intro adjacent
    split at adjacent
    · simp at adjacent
    · have stop : arguments.range.stop - 1 = arguments.range.start + 1 := by omega
      refine ⟨by omega, ?_⟩
      rw [← sliceInner, stop, Text.slice_self]

/-- A call with an identifier before the argument text of the program, if there is any. -/
theorem writeEmission_callBefore {write : Edits.RangeWriter} {owner : EditKey} {callee : Emission}
    {id : String} {rest : Option ByteRange} {calleeText given : List Char}
    (calleeWritten : Edits.writeEmission write owner callee = .ok calleeText)
    (restWritten : ∀ range, rest = some range → write range owner = .ok given)
    (noRest : rest = none → given = []) :
    Edits.writeEmission write owner (.callBefore callee (.identifier id) rest) =
      .ok (identifiedCall calleeText id given) := by
  cases rest with
  | none =>
      simp [Emission.callBefore, Edits.writeEmission, Edits.writeArguments, identifiedCall,
        calleeWritten, noRest rfl, Text.trimLeft, bind, Except.bind, pure, Except.pure]
  | some range =>
      simp only [Emission.callBefore, Edits.writeEmission, Edits.writeArguments, calleeWritten,
        restWritten range rfl, identifiedCall, bind, Except.bind, pure, Except.pure]
      split <;> simp

/-- A control with arguments is described. -/
theorem exists_nativeDescriptor (widget : NativeWidget) (source : SourceText) (first : Node)
    (rest : List Node) (index : Nat) :
    ∃ descriptor, nativeDescriptor? widget source (first :: rest) index = some descriptor ∧
      descriptor.id = widget.id (source.charOffset first.start) := by
  cases widget <;> exact ⟨_, rfl, rfl⟩

/-- A control becomes a call with an identifier; its arguments are not looked at. -/
theorem recorded_nativeWidget {function arguments : Node}
    (wellFormed : node.WellFormed context.source.chars) (isCall : node.kind = .callExpression)
    (member : arguments ∈ node.children) (isArguments : arguments.kind = .arguments)
    (widget : NativeWidget) (first : Node) (rest : List Node)
    (given : arguments.values = first :: rest) (counters : WidgetCounters) :
    Recorded context node
      (Findings.ofVisit (nativeWidget context widget ⟨node.range, function, arguments⟩
        { counters := counters }))
      (.fold (identifiedCall widget.identifiedCallee.toList
        (widget.id (context.source.charOffset first.start))
        (betweenParentheses (context.source.slice arguments.range))),
        (counters.next widget.kind.name).2) := by
  have covers := covers_of_call wellFormed isCall
  obtain ⟨ofSome, ofNone⟩ := inner?_arguments wellFormed member isArguments function
  obtain ⟨descriptor, described, id⟩ :=
    exists_nativeDescriptor widget context.source first rest (counters.next widget.kind.name).1
  simp only [nativeWidget, CallParts.values, given, described, replace, Findings.ofVisit,
    Findings.ofPass, describe_eq]
  refine .folded rfl covers rfl ?_ ?_
  · intro range isSource
    simp only [Emission.callBefore, Emission.sources, Arguments.sources, List.nil_append,
      Option.mem_toList] at isSource
    exact (ofSome range isSource).2.1
  · intro write written
    simp only [Emission.callBefore, Emission.sources, Arguments.sources, List.nil_append,
      Option.mem_toList] at written
    rw [id]
    refine writeEmission_callBefore rfl ?_ fun none => (ofNone none).2
    intro range isInner
    rw [written range isInner, (ofSome range isInner).2.2]

end Folded

/-- Every visit of a well-formed node is one of the five ways. -/
theorem recorded_look {context : PassContext} {node : Node}
    (wellFormed : node.WellFormed context.source.chars) (ancestors : List Node)
    (counters : WidgetCounters) :
    Recorded context node (look context ancestors node counters)
      (Manner.of context ancestors node counters) := by
  simp only [look, visit, Manner.of]
  cases selected : Rule.select? context.registry
      (Shape.of context.source ancestors.head? node) with
  | none => exact .nothing rfl rfl
  | some rule =>
      cases Rule.matches_of_select? selected with
      | @subLanguage function template language kind _ _ _ _ known =>
          simp only [apply, known, Option.bind_some]
          exact recorded_tagged (covers_of_call wellFormed kind) template _ language.locate counters
      | @tidal function template kind =>
          exact recorded_tagged (covers_of_call wellFormed kind) template _ _ counters
      | templatePattern kind =>
          obtain ⟨_, _, _, _, _, long⟩ :=
            (wellFormed.placed.template kind).exists_slice_inner wellFormed.placed rfl rfl
          refine recorded_pattern (by omega) _ _ _ counters ?_ ?_
          · simp [Emission.sources]
          · intro write _
            simp [Edits.writeEmission]
      | stringPattern kind =>
          have long : node.start + 2 ≤ node.stop := by
            rcases wellFormed.placed.string kind with delimited | delimited <;>
              obtain ⟨_, _, _, _, _, long⟩ :=
                delimited.exists_slice_inner wellFormed.placed rfl rfl <;>
              exact long
          refine recorded_pattern (by omega) _ _ _ counters ?_ ?_
          · intro range isSource
            obtain rfl := List.mem_singleton.mp isSource
            refine ⟨⟨Nat.le_refl _, Nat.le_refl _⟩, ?_, wellFormed.placed.first,
              wellFormed.placed.last⟩
            exact (by omega : node.start < node.stop)
          · intro write written
            exact written node.range (List.mem_singleton.mpr rfl)
      | @nativeWidget function arguments widget kind functionPart argumentsPart _ isList _ given =>
          have member := Node.mem_children_of_child? argumentsPart
          obtain ⟨first, rest, values⟩ := List.exists_cons_of_ne_nil given
          have isArguments := wellFormed.kind_arguments kind argumentsPart isList
          simp only [apply, CallParts.values, values]
          exact recorded_nativeWidget wellFormed kind member isArguments widget first rest values
            counters
      | widgetMethod kind functionPart argumentsPart _ _ isList =>
          simp only [apply, widgetMethod, replace, Findings.ofVisit, Findings.ofPass, describe_eq]
          exact .identified rfl kind functionPart argumentsPart isList rfl
      | awaitSamples kind =>
          exact .awaiting rfl kind rfl
      | label kind labelPart bodyPart isExpression firstValue =>
          exact .naming rfl kind bodyPart isExpression firstValue rfl

end Pass

end PatternScript
