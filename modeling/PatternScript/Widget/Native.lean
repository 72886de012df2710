import PatternScript.Widget.Descriptor
import PatternScript.Number.Reading
import PatternScript.Script.Node
import PatternScript.Source.SourceText

/-!
Contract: the controls of the language and the identifiers of all controls.

The identifier of a control that is a function call names the place of its first argument; that of a
control that is a method call counts the calls of the method before it. The latter stays the same
when text moves.

Owns: the three functions, identifiers, counters, and the descriptor of a function call.
Does not own: which calls are controls.
-/

namespace PatternScript

/-- The functions that are controls. -/
inductive NativeWidget where
  | slider
  | toggle
  | radio
deriving DecidableEq, Repr

namespace NativeWidget

/-- The control that a function is, if it is one. -/
def ofCallee? : String → Option NativeWidget
  | "slider" => some .slider
  | "toggle" => some .toggle
  | "radio" => some .radio
  | _ => none

/-- The kind of the control. -/
def kind : NativeWidget → WidgetKind
  | .slider => .slider
  | .toggle => .toggle
  | .radio => .radio

/-- The function that takes the identifier of the control as its first argument. -/
def identifiedCallee : NativeWidget → String
  | .slider => "sliderWithID"
  | .toggle => "toggleWithID"
  | .radio => "radioWithID"

/-- The identifier of the control whose first argument starts at a character offset. -/
def id (widget : NativeWidget) (offset : Nat) : String :=
  widget.kind.name ++ "_" ++ Nat.repr offset

end NativeWidget

/-- The identifier of the call of a method with a number of calls before it. -/
def methodWidgetId (caller : Option String) (method : String) (index : Nat) : String :=
  caller.getD "" ++ "_widget_" ++ method ++ "_" ++ Nat.repr index

/-- How many controls there were so far, by the name of their kind. -/
abbrev WidgetCounters := List (String × Nat)

namespace WidgetCounters

/-- The number of controls of a kind so far. -/
def count (counters : WidgetCounters) (name : String) : Nat :=
  (counters.lookup name).getD 0

/-- Counts one more control of a kind; answers how many there were before. -/
def next (counters : WidgetCounters) (name : String) : Nat × WidgetCounters :=
  let index := counters.count name
  (index, (name, index + 1) :: counters.filter fun entry => entry.1 != name)

end WidgetCounters

/-- A literal text without its first and last byte. -/
def insideDelimiters (text : List Char) : List Char :=
  Text.slice text ⟨1, Text.byteLength text - 1⟩

/-- The value that a number in a program denotes: a whole number if it is one below `10 ^ 15`. -/
def numberValue (value : Binary64) : Json :=
  match value.toInt? with
  | some whole => if whole.natAbs < Nat.pow 10 15 then .integer whole else .ofBinary64 value
  | none => .ofBinary64 value

/-- The value of a literal argument; anything else stands for its own text. -/
def literalValue (source : SourceText) (node : Script.Node) : Json :=
  let text := source.slice node.range
  match node.kind with
  | .number | .unaryExpression =>
      match Binary64.ofProgram? text with
      | some value => numberValue value
      | none => .string (String.ofList text)
  | .string => .string (String.ofList (insideDelimiters text))
  | .trueLiteral => .bool true
  | .falseLiteral => .bool false
  | _ => .string (String.ofList text)

/-- The number an argument denotes, if there is such an argument and it denotes one. -/
def numberAt (source : SourceText) (values : List Script.Node) (place : Nat) : Option Binary64 :=
  match values[place]? with
  | some node => Binary64.ofProgram? (source.slice node.range)
  | none => none

/-- The descriptor of a call that is a control; there is none without arguments. A slider reaches
from zero to one unless numbers say otherwise. -/
def nativeDescriptor? (widget : NativeWidget) (source : SourceText) (values : List Script.Node)
    (index : Nat) : Option WidgetDescriptor :=
  match values with
  | [] => none
  | first :: _ =>
      let span := source.span first.range
      let plain : WidgetDescriptor :=
        { span := span
          kind := widget.kind
          value := some (source.text first.range)
          id := widget.id span.start
          index := some index }
      match widget with
      | .slider =>
          some
            { plain with
              min := some ((numberAt source values 1).getD (Binary64.ofInt 0))
              max := some ((numberAt source values 2).getD (Binary64.ofInt 1))
              step := numberAt source values 3 }
      | .toggle => some plain
      | .radio => some { plain with options := some (values.map (literalValue source)) }

end PatternScript
