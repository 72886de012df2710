import PatternScript.Rule

/-!
Contract: which nodes a rule is selected for.

Owns: for each rule, what its selection says about the node, its parts and the registry.
Does not own: what a rule does.
-/

namespace PatternScript

open Script

namespace Rule

/-- What the selection of a rule says about a node: its kind, its parts, and what the rule has
taken from them. -/
inductive Matches (registry : Registry) (source : SourceText) (parent : Option Node)
    (node : Node) : Rule → Prop where
  | subLanguage {function template : Node} {language : Language}
      (kind : node.kind = .callExpression)
      (functionPart : node.child? .function = some function)
      (templatePart : node.child? .arguments = some template)
      (isName : function.kind = .identifier)
      (isTemplate : template.kind = .templateString)
      (known : registry.language? (source.text function.range) = some language) :
      Matches registry source parent node (.subLanguage (source.text function.range) template)
  | tidal {function template : Node}
      (kind : node.kind = .callExpression)
      (functionPart : node.child? .function = some function)
      (templatePart : node.child? .arguments = some template)
      (isName : function.kind = .identifier)
      (isTemplate : template.kind = .templateString)
      (unknown : registry.language? (source.text function.range) = none)
      (tag : source.text function.range = Language.tidalTag) :
      Matches registry source parent node (.tidal template)
  | templatePattern
      (kind : node.kind = .templateString)
      (untagged : Shape.isTagged parent node = false) :
      Matches registry source parent node .templatePattern
  | stringPattern {rest : List Char}
      (kind : node.kind = .string)
      (quoted : source.slice node.range = '"' :: rest) :
      Matches registry source parent node .stringPattern
  | nativeWidget {function arguments : Node} {widget : NativeWidget}
      (kind : node.kind = .callExpression)
      (functionPart : node.child? .function = some function)
      (argumentsPart : node.child? .arguments = some arguments)
      (isName : function.kind = .identifier)
      (isList : arguments.kind ≠ .templateString)
      (control : NativeWidget.ofCallee? (source.text function.range) = some widget)
      (given : arguments.values ≠ []) :
      Matches registry source parent node (.nativeWidget widget ⟨node.range, function, arguments⟩)
  | widgetMethod {function arguments property : Node}
      (kind : node.kind = .callExpression)
      (functionPart : node.child? .function = some function)
      (argumentsPart : node.child? .arguments = some arguments)
      (isMember : function.kind = .memberExpression)
      (propertyPart : function.child? .property = some property)
      (isList : arguments.kind ≠ .templateString)
      (known : registry.isMethod (source.text property.range) = true) :
      Matches registry source parent node
        (.widgetMethod (source.text property.range) ⟨node.range, function, arguments⟩)
  | awaitSamples {function arguments : Node}
      (kind : node.kind = .callExpression)
      (functionPart : node.child? .function = some function)
      (argumentsPart : node.child? .arguments = some arguments)
      (isName : function.kind = .identifier)
      (isList : arguments.kind ≠ .templateString)
      (loader : source.text function.range = sampleLoader)
      (bare : (parent.any fun above => above.kind == .awaitExpression) = false) :
      Matches registry source parent node (.awaitSamples ⟨node.range, function, arguments⟩)
  | label {label body expression : Node}
      (kind : node.kind = .labeledStatement)
      (labelPart : node.child? .label = some label)
      (bodyPart : node.child? .body = some body)
      (isExpression : body.kind = .expressionStatement)
      (firstValue : body.values.head? = some expression) :
      Matches registry source parent node (.label (source.text label.range) expression)

/-- A selected rule matches its node. -/
theorem matches_of_select? {registry : Registry} {source : SourceText} {parent : Option Node}
    {node : Node} {rule : Rule}
    (selected : select? registry (Shape.of source parent node) = some rule) :
    Matches registry source parent node rule := by
  unfold Shape.of at selected
  split at selected
  case _ kind =>
      unfold Shape.ofCall at selected
      split at selected
      case _ function arguments functionPart argumentsPart =>
          split at selected
          case isTrue isTemplate =>
              by_cases isName : function.kind = .identifier
              · simp only [isName, ↓reduceIte, select?, ofTag?] at selected
                cases known : registry.language? (source.text function.range) with
                | some language =>
                    simp only [known, Option.isSome_some, ↓reduceIte, Option.some.injEq] at selected
                    subst selected
                    exact .subLanguage kind functionPart argumentsPart isName isTemplate known
                | none =>
                    simp only [known, Option.isSome_none, Bool.false_eq_true, ↓reduceIte,
                      Option.ite_none_right_eq_some, Option.some.injEq] at selected
                    obtain ⟨tag, rfl⟩ := selected
                    exact .tidal kind functionPart argumentsPart isName isTemplate known tag
              · simp [isName, select?] at selected
          case isFalse isList =>
              unfold Shape.calleeOf at selected
              split at selected
              case _ isName =>
                  simp only [select?, ofFunction?] at selected
                  split at selected
                  case _ widget control =>
                      split at selected
                      · simp at selected
                      case isFalse given =>
                          simp only [Option.some.injEq] at selected
                          subst selected
                          exact .nativeWidget kind functionPart argumentsPart isName isList control
                            (by simpa [CallParts.values] using given)
                  case _ =>
                      simp only [Option.ite_none_right_eq_some, Option.some.injEq] at selected
                      obtain ⟨⟨loader, bare⟩, rfl⟩ := selected
                      exact .awaitSamples kind functionPart argumentsPart isName isList loader
                        (by simpa using bare)
              case _ isMember =>
                  split at selected
                  case _ property propertyPart =>
                      simp only [select?, Option.ite_none_right_eq_some,
                        Option.some.injEq] at selected
                      obtain ⟨known, rfl⟩ := selected
                      exact .widgetMethod kind functionPart argumentsPart isMember propertyPart
                        isList known
                  case _ => simp [select?] at selected
              case _ => simp [select?] at selected
      case _ => simp [select?] at selected
  case _ kind =>
      cases untagged : Shape.isTagged parent node with
      | true => simp [select?, untagged] at selected
      | false =>
          simp only [select?, untagged, Bool.false_eq_true, ↓reduceIte,
            Option.some.injEq] at selected
          subst selected
          exact .templatePattern kind untagged
  case _ kind =>
      split at selected
      case _ rest quoted =>
          simp only [select?, Option.some.injEq] at selected
          subst selected
          exact .stringPattern kind quoted
      case _ => simp [select?] at selected
  case _ kind =>
      unfold Shape.ofLabeled at selected
      split at selected
      case _ label body labelPart bodyPart =>
          by_cases isExpression : body.kind = .expressionStatement
          · simp only [isExpression, ↓reduceIte] at selected
            cases firstValue : body.values.head? with
            | none => simp [firstValue, select?] at selected
            | some expression =>
                simp only [firstValue, select?, Option.some.injEq] at selected
                subst selected
                exact .label kind labelPart bodyPart isExpression firstValue
          · simp [isExpression, select?] at selected
      case _ => simp [select?] at selected
  case _ => simp [select?] at selected

/-- No rule is selected for a node of another kind than the four that have rules. -/
theorem select?_eq_none_of_kind {registry : Registry} {source : SourceText}
    {parent : Option Node} {node : Node} (notCall : node.kind ≠ .callExpression)
    (notTemplate : node.kind ≠ .templateString) (notString : node.kind ≠ .string)
    (notLabeled : node.kind ≠ .labeledStatement) :
    select? registry (Shape.of source parent node) = none := by
  cases selected : select? registry (Shape.of source parent node) with
  | none => rfl
  | some rule =>
      cases matches_of_select? selected <;> contradiction

end Rule

end PatternScript
