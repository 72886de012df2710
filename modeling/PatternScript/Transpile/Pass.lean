import PatternScript.Edits
import PatternScript.Rule
import PatternScript.Script.Cursor
import PatternScript.Transpile.Options

/-!
Contract: one walk over a syntax tree that collects replacements, locations and controls.

Every node is matched against the rules. Literals that become calls and controls that are function
calls are taken as they stand, and nothing inside them is looked at; all other nodes are looked into.

Owns: what each rule does, and the walk.
Does not own: the rules' selection, and writing the replacements.
-/

namespace PatternScript

open Script

/-- What a walk has collected. -/
structure Pass where
  edits : Edits := {}
  locations : List Span := []
  widgets : List WidgetDescriptor := []
  counters : WidgetCounters := []

/-- What stays the same during a walk. -/
structure PassContext where
  source : SourceText
  registry : Registry
  options : Options

/-! ## Literals with a scheme -/

/-- The characters of the scheme of a resource address. -/
def isSchemeChar (c : Char) : Bool :=
  c.isAlphanum || c == '+' || c == '.' || c == '-'

/-- The text holds a scheme followed by `://`, where `lettered` says that the scheme characters just
before the text hold a letter. -/
def schemeFrom (lettered : Bool) : List Char → Bool
  | [] => false
  | c :: rest =>
      (lettered && c == ':' && rest.take 2 == ['/', '/']) ||
        schemeFrom (isSchemeChar c && (lettered || c.isAlpha)) rest

/-- The text holds the start of a resource address. Schemes start with a letter. -/
def holdsScheme (text : List Char) : Bool :=
  schemeFrom false text

namespace Pass

/-- Records a replacement. -/
def replace (pass : Pass) (range : ByteRange) (emission : Emission) : Pass :=
  { pass with edits := pass.edits.replace range emission }

/-- Reports locations if they are asked for. -/
def report (pass : Pass) (context : PassContext) (spans : List Span) : Pass :=
  if context.options.emitLocations then { pass with locations := pass.locations ++ spans } else pass

/-- Reports a control if controls are asked for. -/
def describe (pass : Pass) (context : PassContext) (widget : WidgetDescriptor) : Pass :=
  if context.options.emitWidgets then { pass with widgets := pass.widgets ++ [widget] } else pass

/-- Replaces a node by a call with a literal and the offset of its text. -/
def literalCall (pass : Pass) (node : Node) (callee : String) (literal : Emission) (offset : Nat) :
    Pass :=
  pass.replace node.range (.callWith (.name callee) [literal, .number offset])

/-! ## What the rules do -/

/-- Replaces a tagged template by a call. The locations of its text are those of its language. -/
def tagged (context : PassContext) (node template : Node) (callee : String)
    (locate : List Char → Nat → List Span) (pass : Pass) : Action × Pass :=
  let raw := firstQuasi context.source template
  let offset := context.source.charOffset (template.start + 1)
  let reported := pass.report context (locate raw offset)
  (.skip, reported.literalCall node callee (.quoted (String.ofList raw)) offset)

/-- Replaces a literal that is notation by a call. Without a default language it is read in double
quotes, else in brackets, so that the offset is that of the delimiter either way. -/
def pattern (context : PassContext) (node : Node) (value : List Char) (literal : Emission)
    (pass : Pass) : Action × Pass :=
  if holdsScheme value then (.descend, pass)
  else
    let start := context.source.charOffset node.start
    match context.registry.defaultLanguage? with
    | some language =>
        let reported := pass.report context (language.locate ('[' :: value ++ [']']) start)
        let callee := language.callName.getD Language.patternCall
        (.skip, reported.literalCall node callee literal start)
    | none =>
        let reported := pass.report context (Notation.leafSpans ('"' :: value ++ ['"']) start)
        (.skip, reported.literalCall node Language.patternCall literal start)

/-- Gives a control its identifier. -/
def nativeWidget (context : PassContext) (widget : NativeWidget) (parts : CallParts)
    (pass : Pass) : Action × Pass :=
  let (index, counters) := pass.counters.next widget.kind.name
  let counted := { pass with counters := counters }
  match nativeDescriptor? widget context.source parts.values index with
  | none => (.descend, counted)
  | some descriptor =>
      let call :=
        Emission.callBefore (.name widget.identifiedCallee) (.identifier descriptor.id) parts.inner?
      (.skip, (counted.replace parts.range call).describe context descriptor)

/-- Gives the call of a widget method its identifier. -/
def widgetMethod (context : PassContext) (method : String) (parts : CallParts)
    (pass : Pass) : Action × Pass :=
  let (index, counters) := pass.counters.next method
  let counted := { pass with counters := counters }
  let id := methodWidgetId context.options.callerId method index
  let behind := context.source.charOffset parts.range.stop
  let call := Emission.callBefore (.source parts.function.range) (.identifier id) parts.inner?
  let descriptor : WidgetDescriptor :=
    { span := ⟨behind, behind⟩, kind := .method method, id := id, index := some index }
  (.descend, (counted.replace parts.range call).describe context descriptor)

/-- An awaited call needs no parentheses below these nodes. -/
def awaitStandsAlone : List Node → Bool
  | [] => false
  | parent :: above =>
      match parent.kind with
      | .expressionStatement => above.head?.all fun node => node.kind != .labeledStatement
      | .arguments | .array | .variableDeclarator | .parenthesizedExpression
      | .returnStatement => true
      | _ => false

/-- Awaits the loading of samples. -/
def awaitSamples (ancestors : List Node) (parts : CallParts) (pass : Pass) : Action × Pass :=
  let awaited := Emission.await (.source parts.range)
  let emission := if awaitStandsAlone ancestors then awaited else .parens awaited
  (.descend, pass.replace parts.range emission)

/-- Names a labelled expression. -/
def label (node : Node) (text : String) (expression : Node) (pass : Pass) : Action × Pass :=
  let whole := Emission.source expression.range
  let object := if expression.kind.isMemberSafe then whole else .parens whole
  (.descend,
    pass.replace ⟨node.start, expression.stop⟩ (.method object "p" [.quoted text]))

/-- Applies a rule. -/
def apply (context : PassContext) (ancestors : List Node) (node : Node) (rule : Rule)
    (pass : Pass) : Action × Pass :=
  match rule with
  | .subLanguage tag template =>
      match context.registry.language? tag with
      | some language =>
          pass.tagged context node template (language.callName.getD tag) language.locate
      | none => (.descend, pass)
  | .tidal template =>
      pass.tagged context node template Language.tidalTag Notation.quotedSpans
  | .templatePattern =>
      let raw := firstQuasi context.source node
      pass.pattern context node raw (.quoted (String.ofList raw))
  | .stringPattern =>
      pass.pattern context node (insideDelimiters (context.source.slice node.range))
        (.source node.range)
  | .nativeWidget widget parts => pass.nativeWidget context widget parts
  | .widgetMethod method parts => pass.widgetMethod context method parts
  | .awaitSamples parts => pass.awaitSamples ancestors parts
  | .label text expression => pass.label node text expression

/-! ## The walk -/

/-- Looks at one node. -/
def visit (context : PassContext) : Visitor Pass := fun ancestors node pass =>
  match Rule.select? context.registry (Shape.of context.source ancestors.head? node) with
  | some rule => pass.apply context ancestors node rule
  | none => (.descend, pass)

/-- The walk over a tree. -/
def ofTree (context : PassContext) (tree : Node) : Pass :=
  ((Cursor.ofRoot tree).traverse (visit context) {}).2

end Pass

end PatternScript
