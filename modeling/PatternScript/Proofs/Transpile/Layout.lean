import PatternScript.Proofs.Script.Outline
import PatternScript.Proofs.Transpile.Identifiers

/-!
Contract: what a walk does to a program does not depend on the layout of the program.

Programs that differ in nothing but their layout have the same shapes in the same places, so the same
rules are selected there and the walks go the same way. The counters are then the same, and with them
the identifiers of methods. The identifiers of functions name a place in the text, which is all that
may differ in them.

Owns: shapes, rules and controls that are the same but for the layout, and the rules that a walk
matches.
Does not own: the outline of a program, and walks that go in step.
-/

namespace PatternScript

open Script
open Script.Node (SameButLayout SamePlace InStep)

/-! ## Shapes and rules -/

/-- The parts of two calls differ in nothing but the layout. -/
structure CallParts.SameButLayout (source source' : SourceText) (parts parts' : CallParts) :
    Prop where
  function : Node.SameButLayout source source' parts.function parts'.function
  arguments : Node.SameButLayout source source' parts.arguments parts'.arguments

/-- Two shapes differ in nothing but the layout. -/
inductive Shape.SameButLayout (source source' : SourceText) : Shape → Shape → Prop where
  | taggedTemplate (tag : Option String) {template template' : Node}
      (same : Node.SameButLayout source source' template template') :
      SameButLayout source source' (.taggedTemplate tag template) (.taggedTemplate tag template')
  | templateString (tagged : Bool) :
      SameButLayout source source' (.templateString tagged) (.templateString tagged)
  | stringLiteral (quote : Quote) :
      SameButLayout source source' (.stringLiteral quote) (.stringLiteral quote)
  | call (callee : Callee) {parts parts' : CallParts} (awaited : Bool)
      (same : parts.SameButLayout source source' parts') :
      SameButLayout source source' (.call callee parts awaited) (.call callee parts' awaited)
  | labeledStatement (label : String) {expression expression' : Option Node}
      (same : Option.Rel (Node.SameButLayout source source') expression expression') :
      SameButLayout source source' (.labeledStatement label expression)
        (.labeledStatement label expression')
  | other : SameButLayout source source' .other .other

/-- Two rules are the same, and what they have taken from the program differs in nothing but the
layout. -/
inductive Rule.SameButLayout (source source' : SourceText) : Rule → Rule → Prop where
  | subLanguage (tag : String) {template template' : Node}
      (same : Node.SameButLayout source source' template template') :
      SameButLayout source source' (.subLanguage tag template) (.subLanguage tag template')
  | tidal {template template' : Node}
      (same : Node.SameButLayout source source' template template') :
      SameButLayout source source' (.tidal template) (.tidal template')
  | templatePattern : SameButLayout source source' .templatePattern .templatePattern
  | stringPattern : SameButLayout source source' .stringPattern .stringPattern
  | nativeWidget (widget : NativeWidget) {parts parts' : CallParts}
      (same : parts.SameButLayout source source' parts') :
      SameButLayout source source' (.nativeWidget widget parts) (.nativeWidget widget parts')
  | widgetMethod (method : String) {parts parts' : CallParts}
      (same : parts.SameButLayout source source' parts') :
      SameButLayout source source' (.widgetMethod method parts) (.widgetMethod method parts')
  | awaitSamples {parts parts' : CallParts} (same : parts.SameButLayout source source' parts') :
      SameButLayout source source' (.awaitSamples parts) (.awaitSamples parts')
  | label (text : String) {expression expression' : Node}
      (same : Node.SameButLayout source source' expression expression') :
      SameButLayout source source' (.label text expression) (.label text expression')

section Shapes

variable {source source' : SourceText} {parent parent' : Option Node} {node node' : Node}

theorem text_congr (same : SameButLayout source source' node node')
    (isWord : node.kind.isWord = true ∨ node.role = some .property) :
    source.text node.range = source'.text node'.range :=
  congrArg String.ofList (same.word isWord)

theorem any_kind_congr {kind : Kind} (parents : parent.map Node.kind = parent'.map Node.kind) :
    (parent.any fun above => above.kind == kind) = parent'.any fun above => above.kind == kind := by
  cases parent <;> cases parent' <;> simp_all

theorem calleeOf_congr (same : SameButLayout source source' node node') :
    Shape.calleeOf source node = Shape.calleeOf source' node' := by
  unfold Shape.calleeOf
  rw [← same.kind]
  split
  case _ isName => rw [text_congr same (.inl (by rw [isName]; rfl))]
  case _ isMember =>
      have properties := same.child? .property
      generalize found : node.child? .property = property at properties ⊢
      generalize node'.child? .property = property' at properties ⊢
      cases properties with
      | none => rfl
      | @some property property' sameProperty =>
          have isProperty : property.role = some .property := by simpa using List.find?_some found
          simp only [text_congr sameProperty (.inr isProperty)]
  case _ => rfl

theorem sameButLayout_ofCall (same : SameButLayout source source' node node')
    (parents : parent.map Node.kind = parent'.map Node.kind) :
    Shape.SameButLayout source source' (Shape.ofCall source parent node)
      (Shape.ofCall source' parent' node') := by
  have functions := same.child? .function
  have given := same.child? .arguments
  unfold Shape.ofCall
  generalize node.child? .function = function, node'.child? .function = function' at functions ⊢
  generalize node.child? .arguments = arguments, node'.child? .arguments = arguments' at given ⊢
  cases functions with
  | none => exact .other
  | some sameFunction =>
      cases given with
      | none => exact .other
      | @some arguments arguments' sameArguments =>
          simp only [← sameArguments.kind]
          by_cases isTemplate : arguments.kind = .templateString
          · rw [if_pos isTemplate, if_pos isTemplate, ← sameFunction.kind]
            split
            case isTrue isName =>
                rw [text_congr sameFunction (.inl (by rw [isName]; rfl))]
                exact .taggedTemplate _ sameArguments
            case isFalse => exact .taggedTemplate _ sameArguments
          · rw [if_neg isTemplate, if_neg isTemplate, any_kind_congr parents, calleeOf_congr sameFunction]
            exact .call _ _ ⟨sameFunction, sameArguments⟩

theorem sameButLayout_ofLabeled (same : SameButLayout source source' node node')
    (isLabeled : node.kind = .labeledStatement) :
    Shape.SameButLayout source source' (Shape.ofLabeled source node)
      (Shape.ofLabeled source' node') := by
  obtain ⟨label, body, labelPart, bodyPart, _, _, isName, _⟩ := same.formed.exists_label_parts isLabeled
  have labels := same.child? .label
  have bodies := same.child? .body
  unfold Shape.ofLabeled
  rw [labelPart] at labels ⊢
  rw [bodyPart] at bodies ⊢
  generalize node'.child? .label = label' at labels ⊢
  generalize node'.child? .body = body' at bodies ⊢
  cases labels with
  | some sameLabel =>
      cases bodies with
      | @some _ body' sameBody =>
          simp only [← sameBody.kind, text_congr sameLabel (.inl (by rw [isName]; rfl))]
          refine .labeledStatement _ ?_
          split
          · have values := sameBody.values
            generalize body.values = list, body'.values = list' at values ⊢
            cases values with
            | nil => exact .none
            | cons atHead _ => exact .some atHead
          · exact .none

/-- Nodes that differ in nothing but the layout have shapes that do. -/
theorem sameButLayout_shape (same : SameButLayout source source' node node')
    (parents : parent.map Node.kind = parent'.map Node.kind) :
    Shape.SameButLayout source source' (Shape.of source parent node)
      (Shape.of source' parent' node') := by
  unfold Shape.of
  rw [← same.kind]
  split
  case _ => exact sameButLayout_ofCall same parents
  case _ =>
      rw [Shape.isTagged, Shape.isTagged, same.role, any_kind_congr parents]
      exact .templateString _
  case _ isString =>
      rw [same.word (.inl (by rw [isString]; rfl))]
      split <;> exact .stringLiteral _
  case _ isLabeled => exact sameButLayout_ofLabeled same isLabeled
  case _ => exact .other

theorem isEmpty_values_congr {parts parts' : CallParts}
    (same : parts.SameButLayout source source' parts') :
    parts.values.isEmpty = parts'.values.isEmpty := by
  have values := same.arguments.values
  rw [CallParts.values, CallParts.values]
  generalize parts.arguments.values = list, parts'.arguments.values = list' at values ⊢
  cases values <;> rfl

/-- Shapes that differ in nothing but the layout lead to the same rule. -/
theorem sameButLayout_select? (registry : Registry) {shape shape' : Shape}
    (same : Shape.SameButLayout source source' shape shape') :
    Option.Rel (Rule.SameButLayout source source') (Rule.select? registry shape)
      (Rule.select? registry shape') := by
  cases same with
  | taggedTemplate tag sameTemplate =>
      cases tag with
      | none => exact .none
      | some tag =>
          rw [Rule.select?, Rule.select?, Rule.ofTag?, Rule.ofTag?]
          split
          · exact .some (.subLanguage tag sameTemplate)
          · split
            · exact .some (.tidal sameTemplate)
            · exact .none
  | templateString tagged =>
      cases tagged with
      | true => exact .none
      | false => exact .some .templatePattern
  | stringLiteral quote =>
      cases quote with
      | double => exact .some .stringPattern
      | single => exact .none
  | call callee awaited sameParts =>
      cases callee with
      | identifier name =>
          rw [Rule.select?, Rule.select?, Rule.ofFunction?, Rule.ofFunction?]
          split
          · rw [isEmpty_values_congr sameParts]
            split
            · exact .none
            · exact .some (.nativeWidget _ sameParts)
          · split
            · exact .some (.awaitSamples sameParts)
            · exact .none
      | member property =>
          rw [Rule.select?, Rule.select?]
          split
          · exact .some (.widgetMethod property sameParts)
          · exact .none
      | other => exact .none
  | labeledStatement label sameExpression =>
      cases sameExpression with
      | none => exact .none
      | some sameExpression => exact .some (.label label sameExpression)
  | other => exact .none

end Shapes

/-! ## Controls -/

/-- Two descriptors describe the same control of two programs: they agree in kind and index, and in the
identifier if the control is a method. The identifiers of a function differ at most in the number at
their end, which is the place of the control. -/
structure WidgetDescriptor.SameControl (left right : WidgetDescriptor) : Prop where
  kind : left.kind = right.kind
  index : left.index = right.index
  method : ∀ name, left.kind = .method name → left.id = right.id
  function : (∀ name, left.kind ≠ .method name) → ∃ widget : NativeWidget, left.kind = widget.kind ∧
    left.id = widget.id left.span.start ∧ right.id = widget.id right.span.start

theorem sameControl_native {source source' : SourceText} {values values' : List Node}
    (widget : NativeWidget) (index : Nat)
    (same : List.Forall₂ (SameButLayout source source') values values') :
    Option.Rel WidgetDescriptor.SameControl (nativeDescriptor? widget source values index)
      (nativeDescriptor? widget source' values' index) := by
  cases same with
  | nil => exact .none
  | cons _ _ =>
      cases widget with
      | slider => exact .some ⟨rfl, rfl, nofun, fun _ => ⟨.slider, rfl, rfl, rfl⟩⟩
      | toggle => exact .some ⟨rfl, rfl, nofun, fun _ => ⟨.toggle, rfl, rfl, rfl⟩⟩
      | radio => exact .some ⟨rfl, rfl, nofun, fun _ => ⟨.radio, rfl, rfl, rfl⟩⟩

namespace Pass

/-- Two walks have counted alike and described the same controls. -/
structure SameControls (left right : Pass) : Prop where
  counters : left.counters = right.counters
  widgets : List.Forall₂ WidgetDescriptor.SameControl left.widgets right.widgets

/-- Two visits go the same way, and have counted alike and described the same controls afterwards. -/
structure SameAnswer (answer answer' : Action × Pass) : Prop where
  way : answer.1 = answer'.1
  collected : answer.2.SameControls answer'.2

section Visits

variable {source source' : SourceText} {registry : Registry} {options : Options}
  {ancestors ancestors' : List Node} {node node' : Node} {pass pass' : Pass}

theorem SameControls.describe (collected : pass.SameControls pass') {widget widget' : WidgetDescriptor}
    (same : widget.SameControl widget') :
    (pass.describe ⟨source, registry, options⟩ widget).SameControls
      (pass'.describe ⟨source', registry, options⟩ widget') := by
  rw [describe_eq, describe_eq]
  refine ⟨collected.counters, List.rel_append collected.widgets ?_⟩
  by_cases asked : options.emitWidgets = true
  · rw [if_pos asked, if_pos asked]
    exact .cons same .nil
  · rw [if_neg asked, if_neg asked]
    exact .nil

theorem SameControls.tagged (collected : pass.SameControls pass') (template template' : Node)
    (callee : String) (locate : List Char → Nat → List Span) :
    SameAnswer (pass.tagged ⟨source, registry, options⟩ node template callee locate)
      (pass'.tagged ⟨source', registry, options⟩ node' template' callee locate) := by
  simp only [Pass.tagged, literalCall, replace, report_eq]
  exact ⟨rfl, collected.counters, collected.widgets⟩

theorem SameControls.pattern (collected : pass.SameControls pass') (value : List Char)
    (literal literal' : Emission) :
    SameAnswer (pass.pattern ⟨source, registry, options⟩ node value literal)
      (pass'.pattern ⟨source', registry, options⟩ node' value literal') := by
  unfold Pass.pattern
  by_cases holds : holdsScheme value = true
  · rw [if_pos holds, if_pos holds]
    exact ⟨rfl, collected⟩
  · rw [if_neg holds, if_neg holds]
    simp only [literalCall, replace, report_eq]
    cases registry.defaultLanguage? <;> exact ⟨rfl, collected.counters, collected.widgets⟩

theorem SameControls.nativeWidget (collected : pass.SameControls pass') (widget : NativeWidget)
    {parts parts' : CallParts} (same : parts.SameButLayout source source' parts') :
    SameAnswer (pass.nativeWidget ⟨source, registry, options⟩ widget parts)
      (pass'.nativeWidget ⟨source', registry, options⟩ widget parts') := by
  simp only [Pass.nativeWidget, collected.counters]
  have descriptors := sameControl_native widget (pass'.counters.next widget.kind.name).1
    same.arguments.values
  simp only [CallParts.values]
  generalize nativeDescriptor? widget source parts.arguments.values _ = found at descriptors ⊢
  generalize nativeDescriptor? widget source' parts'.arguments.values _ = found' at descriptors ⊢
  cases descriptors with
  | none => exact ⟨rfl, rfl, collected.widgets⟩
  | some sameControl =>
      refine ⟨rfl, ?_⟩
      apply SameControls.describe
      · exact ⟨rfl, collected.widgets⟩
      · exact sameControl

theorem SameControls.widgetMethod (collected : pass.SameControls pass') (method : String)
    (parts parts' : CallParts) :
    SameAnswer (pass.widgetMethod ⟨source, registry, options⟩ method parts)
      (pass'.widgetMethod ⟨source', registry, options⟩ method parts') := by
  simp only [Pass.widgetMethod, collected.counters]
  refine ⟨rfl, ?_⟩
  apply SameControls.describe
  · exact ⟨rfl, collected.widgets⟩
  · exact ⟨rfl, rfl, fun _ _ => rfl, fun isFunction => absurd rfl (isFunction method)⟩

/-- Visits of nodes that differ in nothing but the layout go the same way and describe the same
control. -/
theorem SameControls.visit (collected : pass.SameControls pass')
    (same : SameButLayout source source' node node')
    (parents : ancestors.head?.map Node.kind = ancestors'.head?.map Node.kind) :
    SameAnswer (Pass.visit ⟨source, registry, options⟩ ancestors node pass)
      (Pass.visit ⟨source', registry, options⟩ ancestors' node' pass') := by
  have rules := sameButLayout_select? registry (sameButLayout_shape same parents)
  unfold Pass.visit
  simp only
  generalize selected : Rule.select? registry (Shape.of source ancestors.head? node) = rule at rules ⊢
  generalize Rule.select? registry (Shape.of source' ancestors'.head? node') = rule' at rules ⊢
  cases rules with
  | none => exact ⟨rfl, collected⟩
  | some sameRule =>
      cases sameRule with
      | subLanguage tag sameTemplate =>
          simp only [apply]
          cases registry.language? tag with
          | none => exact ⟨rfl, collected⟩
          | some language => exact collected.tagged _ _ _ _
      | tidal sameTemplate => exact collected.tagged _ _ _ _
      | templatePattern =>
          cases Rule.matches_of_select? selected with
          | templatePattern isTemplate _ =>
              simp only [apply, same.firstQuasi isTemplate]
              exact collected.pattern _ _ _
      | stringPattern =>
          cases Rule.matches_of_select? selected with
          | stringPattern isString _ =>
              simp only [apply, same.word (.inl (by rw [isString]; rfl))]
              exact collected.pattern _ _ _
      | nativeWidget widget sameParts => exact collected.nativeWidget widget sameParts
      | widgetMethod method sameParts => exact collected.widgetMethod method _ _
      | awaitSamples sameParts => exact ⟨rfl, collected.counters, collected.widgets⟩
      | label text sameExpression => exact ⟨rfl, collected.counters, collected.widgets⟩

end Visits

/-! ## The rules that a walk matches -/

/-- A visit that notes the rule it matches, with the node. -/
def noting (context : PassContext) : Visitor (Pass × List (Node × Rule)) :=
  fun ancestors node state =>
    let answer := visit context ancestors node state.1
    let rule := Rule.select? context.registry (Shape.of context.source ancestors.head? node)
    (answer.1, answer.2, state.2 ++ (rule.map fun rule => (node, rule)).toList)

/-- The rules that the walk over a tree matches, with their nodes and in the order of the walk. -/
def matchedRules (context : PassContext) (tree : Node) : List (Node × Rule) :=
  ((Cursor.ofRoot tree).traverse (noting context) ({}, [])).2.2

/-- The walk that notes rules is the walk over the tree. -/
theorem ofTree_eq_noting (context : PassContext) (tree : Node) :
    ofTree context tree = ((Cursor.ofRoot tree).traverse (noting context) ({}, [])).2.1 := by
  unfold ofTree
  rw [Cursor.traverse_eq_visitTree, Cursor.traverse_eq_visitTree]
  exact @Node.visitTree_project _ _ (noting context) (visit context) Prod.fst (fun _ _ _ => rfl) tree []
    ({}, [])

theorem noting_extra {context : PassContext} {ancestors : List Node} {node : Node}
    (isExtra : node.kind.isExtra = true) (state : Pass × List (Node × Rule)) :
    (noting context ancestors node state).2 = state := by
  simp [noting, visit, select?_extra isExtra]

/-- A rule is matched in the same place of two trees, and what it has taken from the program differs
in nothing but the layout. -/
structure SameMatch (source source' : SourceText) (left right : Node)
    (matched matched' : Node × Rule) : Prop where
  place : SamePlace left right matched.1 matched'.1
  rule : matched.2.SameButLayout source source' matched'.2

/-- Two walks that note their rules have matched the same rules and described the same controls. -/
structure SameWalk (source source' : SourceText) (left right : Node)
    (state state' : Pass × List (Node × Rule)) : Prop where
  controls : state.1.SameControls state'.1
  rules : List.Forall₂ (SameMatch source source' left right) state.2 state'.2

theorem inStep_noting {source source' : SourceText} {left right : Node} (registry : Registry)
    (options : Options) (same : SameButLayout source source' left right) :
    InStep left right (noting ⟨source, registry, options⟩) (noting ⟨source', registry, options⟩)
      (SameWalk source source' left right) where
  step := by
    intro ancestors ancestors' node node' state state' place parents before
    have sameNodes := place.sameButLayout same
    have visited := @SameControls.visit source source' registry options ancestors ancestors' node node'
      state.1 state'.1 before.controls sameNodes parents
    have rules := sameButLayout_select? registry (sameButLayout_shape sameNodes parents)
    refine ⟨visited.way, visited.collected, List.rel_append before.rules ?_⟩
    simp only
    generalize Rule.select? registry (Shape.of source ancestors.head? node) = rule at rules ⊢
    generalize Rule.select? registry (Shape.of source' ancestors'.head? node') = rule' at rules ⊢
    cases rules with
    | none => exact .nil
    | some sameRule => exact .cons ⟨place, sameRule⟩ .nil
  extra := by
    intro ancestors node state state' isExtra before
    rw [noting_extra isExtra]
    exact before
  extra' := by
    intro ancestors node state state' isExtra before
    rw [noting_extra isExtra]
    exact before

/-- The layout of a program makes no difference to its rules and controls: over two well-formed trees
with one outline the walks match the same rules in the same places, and describe controls that agree
one by one in kind and index, the methods in their identifiers too. -/
theorem layout_keeps_controls (source source' : SourceText) (left right : Node) (options : Options)
    (registry : Registry) (leftFormed : left.WellFormed source.chars)
    (rightFormed : right.WellFormed source'.chars)
    (sameOutline : left.outline source = right.outline source') :
    List.Forall₂ (SameMatch source source' left right)
        (matchedRules ⟨source, registry, options⟩ left)
        (matchedRules ⟨source', registry, options⟩ right) ∧
      List.Forall₂ WidgetDescriptor.SameControl
        (ofTree ⟨source, registry, options⟩ left).widgets
        (ofTree ⟨source', registry, options⟩ right).widgets := by
  have same : SameButLayout source source' left right := ⟨leftFormed, rightFormed, sameOutline⟩
  have nothing : SameWalk source source' left right ({}, []) ({}, []) := ⟨⟨rfl, .nil⟩, .nil⟩
  have walked := (inStep_noting registry options same).traverse same nothing
  rw [matchedRules, matchedRules, ofTree_eq_noting, ofTree_eq_noting]
  exact ⟨walked.rules, walked.controls.widgets⟩

/-- The program with three controls in another layout, with a comment. -/
def relaidText : List Char := "s.w(/* a */ slider(1))\n  .w( )".toList

/-- Its tree. -/
def relaidTree : Node :=
  .mk .program none ⟨0, 30⟩ [.mk .expressionStatement none ⟨0, 30⟩ [
    .mk .callExpression none ⟨0, 30⟩ [
      .mk .memberExpression (some .function) ⟨0, 27⟩ [
        .mk .callExpression none ⟨0, 22⟩ [
          .mk .memberExpression (some .function) ⟨0, 3⟩ [.mk .identifier none ⟨0, 1⟩ [],
            .mk .propertyIdentifier (some .property) ⟨2, 3⟩ []],
          .mk .arguments (some .arguments) ⟨3, 22⟩ [.mk .comment none ⟨4, 11⟩ [],
            .mk .callExpression none ⟨12, 21⟩ [
              .mk .identifier (some .function) ⟨12, 18⟩ [],
              .mk .arguments (some .arguments) ⟨18, 21⟩ [.mk .number none ⟨19, 20⟩ []]]]],
        .mk .propertyIdentifier (some .property) ⟨26, 27⟩ []],
      .mk .arguments (some .arguments) ⟨27, 30⟩ []]]]

/-- In both layouts three rules are matched, and only the identifier of the function differs. -/
theorem layout_keeps_controls_relaid :
    (controlsTree.WellFormed controlsText ∧ relaidTree.WellFormed relaidText ∧
      controlsTree.outline (.ofChars controlsText) = relaidTree.outline (.ofChars relaidText)) ∧
    ((ofTree ⟨.ofChars controlsText, { methods := ["w"] }, {}⟩ controlsTree).widgets.map
        WidgetDescriptor.id = ["_widget_w_0", "_widget_w_1", "slider_11"] ∧
      (ofTree ⟨.ofChars relaidText, { methods := ["w"] }, {}⟩ relaidTree).widgets.map
        WidgetDescriptor.id = ["_widget_w_0", "_widget_w_1", "slider_19"] ∧
      (matchedRules ⟨.ofChars relaidText, { methods := ["w"] }, {}⟩ relaidTree).map
        (fun matched => matched.2.name) = ["widget-method", "widget-method", "native-widget"]) ∧
    List.Forall₂ (SameMatch (.ofChars controlsText) (.ofChars relaidText) controlsTree relaidTree)
      (matchedRules ⟨.ofChars controlsText, { methods := ["w"] }, {}⟩ controlsTree)
      (matchedRules ⟨.ofChars relaidText, { methods := ["w"] }, {}⟩ relaidTree) ∧
    List.Forall₂ WidgetDescriptor.SameControl
      (ofTree ⟨.ofChars controlsText, { methods := ["w"] }, {}⟩ controlsTree).widgets
      (ofTree ⟨.ofChars relaidText, { methods := ["w"] }, {}⟩ relaidTree).widgets := by
  have leftFormed : controlsTree.WellFormed controlsText := by decide +kernel
  have rightFormed : relaidTree.WellFormed relaidText := by decide +kernel
  have sameOutline : controlsTree.outline (.ofChars controlsText) =
      relaidTree.outline (.ofChars relaidText) := by
    simp only [controlsTree, relaidTree, Node.outline, Node.outlines, Node.word?, Node.quasis,
      Node.kind, Node.role, Node.range, Kind.isWord, Kind.isExtra, Option.none_beq_some,
      Option.some_beq_some, BEq.rfl, beq_iff_eq, Bool.or_self, Bool.or_false, Bool.false_or,
      Bool.true_or, Bool.false_eq_true, ↓reduceIte, reduceCtorEq, Outline.mk.injEq,
      List.cons.injEq, Option.some.injEq, and_self, and_true, true_and]
    decide +kernel
  refine ⟨⟨leftFormed, rightFormed, sameOutline⟩, ⟨?_, ?_, ?_⟩, ?_⟩
  · decide +kernel
  · decide +kernel
  · decide +kernel
  · exact layout_keeps_controls (.ofChars controlsText) (.ofChars relaidText) controlsTree relaidTree {}
      { methods := ["w"] } leftFormed rightFormed sameOutline

end Pass

end PatternScript
