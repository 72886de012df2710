import PatternScript.Json
import PatternScript.Source.Span

/-!
Contract: what an editor is told about the controls in a program.

Owns: the kinds of controls and their descriptors.
Does not own: where controls come from and how descriptors are sent.
-/

namespace PatternScript

/-- The kind of a control: one of three functions of the language, or a method that a user
interface contributes. -/
inductive WidgetKind where
  | slider
  | toggle
  | radio
  | method (name : String)
deriving DecidableEq, Repr

namespace WidgetKind

/-- The name of a kind. -/
def name : WidgetKind → String
  | .slider => "slider"
  | .toggle => "toggle"
  | .radio => "radio"
  | .method name => name

/-- The kind that a name stands for. -/
def ofName : String → WidgetKind
  | "slider" => .slider
  | "toggle" => .toggle
  | "radio" => .radio
  | name => .method name

end WidgetKind

/-- A control in a program. The span is that of the text the control changes, or is empty and right
behind the call for a method. -/
structure WidgetDescriptor where
  span : Span
  kind : WidgetKind
  /-- The text the control changes. -/
  value : Option String := none
  /-- The values to choose from. -/
  options : Option (List Json) := none
  min : Option Binary64 := none
  max : Option Binary64 := none
  step : Option Binary64 := none
  id : String
  /-- How many controls of the same kind stand before it. -/
  index : Option Nat := none
deriving Repr

end PatternScript
