import PatternScript.Source.Location
import PatternScript.Transpile.Outcome
import PatternScript.Wire.Decoding

/-!
Contract: results as data values.

What is absent has no field. Reading a result passes over fields that are not known, takes null for
absence, and takes whole numbers for floating-point ones.

Owns: reading and writing spans, locations, controls and results.
Does not own: the text of the values.
-/

namespace PatternScript.Wire

/-- The field of a value that may be absent. -/
def optionalField {α : Type} (name : String) (encode : α → Json) : Option α → List (String × Json)
  | some value => [(name, encode value)]
  | none => []

/-! ## Spans and locations -/

/-- Writes a span. -/
def encodeSpan (span : Span) : Json :=
  .object [("start", .ofNat span.start), ("end", .ofNat span.stop)]

/-- A span as a record. -/
def spanRecord : Record Span :=
  { typeName := "Span"
    blank := ⟨0, 0⟩
    isStrict := false
    fields :=
      [ .mandatory "start" (natural .json) fun span value => { span with start := value },
        .mandatory "end" (natural .json) fun span value => { span with stop := value } ] }

/-- Reads a span. -/
def decodeSpan (value : Json) : Decoded Span :=
  spanRecord.decode .json value

/-- Writes a location. -/
def encodeLocation (location : Location) : Json :=
  .object
    [ ("offset", .ofNat location.offset),
      ("row", .ofNat location.row),
      ("column", .ofNat location.column) ]

/-- A location as a record. -/
def locationRecord : Record Location :=
  { typeName := "Location"
    blank := ⟨0, 0, 0⟩
    isStrict := false
    fields :=
      [ .mandatory "offset" (natural .json) fun location value => { location with offset := value },
        .mandatory "row" (natural .json) fun location value => { location with row := value },
        .mandatory "column" (natural .json) fun location value =>
          { location with column := value } ] }

/-- Reads a location. -/
def decodeLocation (value : Json) : Decoded Location :=
  locationRecord.decode .json value

/-! ## Controls -/

/-- Writes a control. -/
def encodeWidget (widget : WidgetDescriptor) : Json :=
  .object
    ([ ("from", .ofNat widget.span.start),
       ("to", .ofNat widget.span.stop),
       ("type", .string widget.kind.name) ] ++
      optionalField "value" .string widget.value ++
      optionalField "options" .array widget.options ++
      optionalField "min" .ofBinary64 widget.min ++
      optionalField "max" .ofBinary64 widget.max ++
      optionalField "step" .ofBinary64 widget.step ++
      [("id", .string widget.id)] ++
      optionalField "index" .ofNat widget.index)

/-- A control as a record. -/
def widgetRecord : Record WidgetDescriptor :=
  { typeName := "WidgetDescriptor"
    blank := { span := ⟨0, 0⟩, kind := .slider, id := "" }
    isStrict := false
    fields :=
      [ .mandatory "from" (natural .json) fun widget value =>
          { widget with span := { widget.span with start := value } },
        .mandatory "to" (natural .json) fun widget value =>
          { widget with span := { widget.span with stop := value } },
        .mandatory "type" (string .json) fun widget value =>
          { widget with kind := .ofName value },
        .withDefault "value" (optional (string .json)) fun widget value =>
          { widget with value := value },
        .withDefault "options" (optional (list .json .ok)) fun widget value =>
          { widget with options := value },
        .withDefault "min" (optional (number .json)) fun widget value =>
          { widget with min := value },
        .withDefault "max" (optional (number .json)) fun widget value =>
          { widget with max := value },
        .withDefault "step" (optional (number .json)) fun widget value =>
          { widget with step := value },
        .mandatory "id" (string .json) fun widget value => { widget with id := value },
        .withDefault "index" (optional (natural .json)) fun widget value =>
          { widget with index := value } ] }

/-- Reads a control. -/
def decodeWidget (value : Json) : Decoded WidgetDescriptor :=
  widgetRecord.decode .json value

/-! ## Results -/

/-- Writes a result. -/
def encodeResult (result : Transpiled) : Json :=
  .object
    ([("output", .string result.output)] ++
      optionalField "miniLocations" (fun spans => .array (spans.map encodeSpan)) result.locations ++
      optionalField "widgets" (fun widgets => .array (widgets.map encodeWidget)) result.widgets)

/-- A result as a record. -/
def resultRecord : Record Transpiled :=
  { typeName := "TransformResult"
    blank := { output := "" }
    isStrict := false
    fields :=
      [ .mandatory "output" (string .json) fun result value => { result with output := value },
        .withDefault "miniLocations" (optional (list .json decodeSpan)) fun result value =>
          { result with locations := value },
        .withDefault "widgets" (optional (list .json decodeWidget)) fun result value =>
          { result with widgets := value } ] }

/-- Reads a result. -/
def decodeResult (value : Json) : Decoded Transpiled :=
  resultRecord.decode .json value

end PatternScript.Wire
