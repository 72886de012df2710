import PatternScript.Registry
import PatternScript.Shape
import PatternScript.Widget.Native

/-!
Contract: which rule applies to a node.

At most one rule applies. Tags that are registered win over the built-in tag, and functions that are
controls over the sample loader.

Owns: rules and their selection.
Does not own: what a rule does.
-/

namespace PatternScript

open Script

/-- What is done with a node. -/
inductive Rule where
  /-- A template literal with a registered tag is handed to its language. -/
  | subLanguage (tag : String) (template : Node)
  /-- A template literal with the built-in tag holds quoted notation. -/
  | tidal (template : Node)
  /-- A template literal without a tag is notation. -/
  | templatePattern
  /-- A string in double quotes is notation. -/
  | stringPattern
  /-- A call of a function that is a control. -/
  | nativeWidget (widget : NativeWidget) (parts : CallParts)
  /-- A call of a registered widget method. -/
  | widgetMethod (method : String) (parts : CallParts)
  /-- A call of the sample loader that is not awaited. -/
  | awaitSamples (parts : CallParts)
  /-- A label on an expression. -/
  | label (text : String) (expression : Node)

namespace Rule

/-- The name of a rule. -/
def name : Rule → String
  | .subLanguage _ _ => "sub-language"
  | .tidal _ => "tidal"
  | .templatePattern => "template-pattern"
  | .stringPattern => "string-pattern"
  | .nativeWidget _ _ => "native-widget"
  | .widgetMethod _ _ => "widget-method"
  | .awaitSamples _ => "await-samples"
  | .label _ _ => "label"

/-- The function that loads samples. -/
def sampleLoader : String := "samples"

/-- The rule for a template literal with a tag. -/
def ofTag? (registry : Registry) (tag : String) (template : Node) : Option Rule :=
  if (registry.language? tag).isSome then some (.subLanguage tag template)
  else if tag = Language.tidalTag then some (.tidal template)
  else none

/-- The rule for a call of a named function. -/
def ofFunction? (name : String) (parts : CallParts) (awaited : Bool) : Option Rule :=
  match NativeWidget.ofCallee? name with
  | some widget => if parts.values.isEmpty then none else some (.nativeWidget widget parts)
  | none => if name = sampleLoader ∧ ¬ awaited then some (.awaitSamples parts) else none

/-- The rule for a shape. -/
def select? (registry : Registry) : Shape → Option Rule
  | .taggedTemplate (some tag) template => ofTag? registry tag template
  | .taggedTemplate none _ => none
  | .templateString tagged => if tagged then none else some .templatePattern
  | .stringLiteral .double => some .stringPattern
  | .stringLiteral .single => none
  | .call (.identifier name) parts awaited => ofFunction? name parts awaited
  | .call (.member property) parts _ =>
      if registry.isMethod property then some (.widgetMethod property parts) else none
  | .call .other _ _ => none
  | .labeledStatement text (some expression) => some (.label text expression)
  | .labeledStatement _ none => none
  | .other => none

end Rule

end PatternScript
