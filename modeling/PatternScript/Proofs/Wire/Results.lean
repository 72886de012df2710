import Mathlib.Algebra.Group.Int.Defs
import Mathlib.Algebra.Group.Nat.Defs
import PatternScript.Proofs.Script.Programs
import PatternScript.Proofs.Transpile.Agreement
import PatternScript.Proofs.Transpile.Selection
import PatternScript.Proofs.Wire.Records
import PatternScript.Wire.Result

/-!
Contract: what is left of a result that is written and read again.

Most of a result comes back as it was. The kind of a control goes by its name alone, so that a method
of the same name as one of the three functions comes back as the function; a bound that is not finite
has no text and comes back as absent. Nothing else is lost, and a result that was read before has
neither.

Owns: what comes back of a span, a control and a result, and that results which were read come back
as they are.
Does not own: the text of a value, and which controls a program has.
-/

namespace PatternScript

/-! ## Numbers -/

namespace Binary64

/-- The exponent of a whole number of 64 bits is far from the greatest one. -/
theorem exponentOf_whole_le {value : Nat} (positive : value ≠ 0) (small : value ≤ 2 ^ 64) :
    exponentOf value 1 ≤ 12 := by
  have digits : Nat.log2 value < 65 := by
    rw [Nat.log2_lt positive]
    omega
  have one : Nat.log2 1 = 0 := by decide
  unfold exponentOf
  simp only [one, leastExponent]
  split <;> omega

theorem isFinite_ofInt {value : Int} (small : value.natAbs ≤ 2 ^ 64) :
    (ofInt value).isFinite = true := by
  unfold ofInt ofFraction
  by_cases none : value.natAbs = 0
  · rw [if_pos none]
    rfl
  · have exponent := exponentOf_whole_le none small
    rw [if_neg none]
    simp only [greatestExponent]
    split
    · rw [if_neg (by omega)]
      rfl
    · rw [if_neg (by omega)]
      rfl

end Binary64

namespace Json

mutual

/-- All numbers in the value have a text: floating-point numbers are finite, and whole numbers fit
into 64 bits with or without a sign. -/
def isExpressible : Json → Bool
  | .integer value => decide (-(2 : Int) ^ 63 ≤ value ∧ value < (2 : Int) ^ 64)
  | .float value => value.isFinite
  | .array items => areExpressible items
  | .object fields => areFieldsExpressible fields
  | _ => true

/-- All numbers in the values have a text. -/
def areExpressible : List Json → Bool
  | [] => true
  | value :: rest => isExpressible value && areExpressible rest

/-- All numbers in the fields have a text. -/
def areFieldsExpressible : List (String × Json) → Bool
  | [] => true
  | (_, value) :: rest => isExpressible value && areFieldsExpressible rest

end

theorem forall_of_areExpressible {items : List Json} (expressible : areExpressible items = true) :
    ∀ item ∈ items, item.isExpressible = true := by
  induction items with
  | nil => simp
  | cons item rest inductionHypothesis =>
      rw [areExpressible, Bool.and_eq_true] at expressible
      exact List.forall_mem_cons.mpr ⟨expressible.1, inductionHypothesis expressible.2⟩

theorem forall_of_areFieldsExpressible {fields : List (String × Json)}
    (expressible : areFieldsExpressible fields = true) :
    ∀ field ∈ fields, field.2.isExpressible = true := by
  induction fields with
  | nil => simp
  | cons field rest inductionHypothesis =>
      rw [areFieldsExpressible, Bool.and_eq_true] at expressible
      exact List.forall_mem_cons.mpr ⟨expressible.1, inductionHypothesis expressible.2⟩

theorem isExpressible_of_mem_parts {value : Json} (expressible : value.isExpressible = true) :
    ∀ part ∈ value.parts, part.isExpressible = true := by
  cases value with
  | array items =>
      rw [isExpressible] at expressible
      exact forall_of_areExpressible expressible
  | object fields =>
      rw [isExpressible] at expressible
      simp only [parts, List.forall_mem_map]
      exact forall_of_areFieldsExpressible expressible
  | null | bool | integer | float | string =>
      intro part member
      exact absurd member List.not_mem_nil

end Json

/-! ## What comes back -/

theorem WidgetKind.name_ofName (name : String) : (ofName name).name = name := by
  unfold ofName
  split <;> rfl

/-- A kind comes back from its name unless it is a method of the name of a function. -/
theorem WidgetKind.ofName_name_eq_self_iff {kind : WidgetKind} :
    ofName kind.name = kind ↔
      ∀ name, kind = .method name → NativeWidget.ofCallee? name = none := by
  cases kind with
  | slider | toggle | radio => exact ⟨fun _ _ same => WidgetKind.noConfusion same, fun _ => rfl⟩
  | method name =>
      rw [WidgetKind.name]
      refine ⟨?_, fun other => ?_⟩
      · rintro back other same
        obtain rfl := WidgetKind.method.inj same
        unfold ofName at back
        unfold NativeWidget.ofCallee?
        split at back <;> simp_all
      · have unlike := other name rfl
        unfold NativeWidget.ofCallee? at unlike
        unfold ofName
        split at unlike <;> simp_all

/-- What comes back of a control that is written and read again. -/
def WidgetDescriptor.received (widget : WidgetDescriptor) : WidgetDescriptor :=
  { widget with
    kind := .ofName widget.kind.name
    min := widget.min.filter Binary64.isFinite
    max := widget.max.filter Binary64.isFinite
    step := widget.step.filter Binary64.isFinite }

/-- The control is no method that has the name of a function, and its bounds are finite. -/
structure WidgetDescriptor.Survives (widget : WidgetDescriptor) : Prop where
  kind : ∀ name, widget.kind = .method name → NativeWidget.ofCallee? name = none
  min : ∀ bound ∈ widget.min, bound.isFinite = true
  max : ∀ bound ∈ widget.max, bound.isFinite = true
  step : ∀ bound ∈ widget.step, bound.isFinite = true

theorem WidgetDescriptor.received_eq_self_iff {widget : WidgetDescriptor} :
    widget.received = widget ↔ widget.Survives := by
  have kept : ∀ bound : Option Binary64,
      bound.filter Binary64.isFinite = bound ↔ ∀ number ∈ bound, number.isFinite = true := by
    intro bound
    cases bound <;> simp
  obtain ⟨span, kind, value, options, min, max, step, id, index⟩ := widget
  simp only [received, mk.injEq, WidgetKind.ofName_name_eq_self_iff, kept, true_and, and_true]
  exact ⟨fun ⟨kind, min, max, step⟩ => ⟨kind, min, max, step⟩,
    fun survives => ⟨survives.kind, survives.min, survives.max, survives.step⟩⟩

/-- What comes back of a result that is written and read again. -/
def Transpiled.received (result : Transpiled) : Transpiled :=
  { result with widgets := result.widgets.map fun widgets => widgets.map WidgetDescriptor.received }

theorem Transpiled.received_eq_self_iff {result : Transpiled} :
    result.received = result ↔ ∀ widget ∈ result.widgets.getD [], widget.Survives := by
  obtain ⟨output, locations, widgets⟩ := result
  cases widgets with
  | none => simp [received]
  | some widgets =>
      have same : widgets.map WidgetDescriptor.received = widgets ↔
          widgets.map WidgetDescriptor.received = widgets.map id := by rw [List.map_id]
      simp only [received, mk.injEq, Option.map_some, Option.some.injEq, true_and,
        Option.getD_some, same, List.map_inj_left, id, WidgetDescriptor.received_eq_self_iff]

namespace Wire

/-! ## Writing and reading -/

section Fields

variable {σ α : Type} {fields : List (Field σ)} {values : List (Option Json)}

theorem entries_nil : Record.entries ([] : List (Field σ)) [] = [] := rfl

theorem entries_given (field : Field σ) (given : Json) :
    Record.entries (field :: fields) (some given :: values) =
      (field.name, given) :: Record.entries fields values := rfl

theorem entries_optional (field : Field σ) (encode : α → Json) (value : Option α) :
    Record.entries (field :: fields) (value.map encode :: values) =
      optionalField field.name encode value ++ Record.entries fields values := by
  cases value <;> rfl

theorem fill_given {name : String} {decode : Json → Decoded α} {set : σ → α → σ} {held : σ}
    {given : Json} {value : α} (reads : decode given = .ok value) :
    Record.fill (.mandatory name decode set :: fields) (some given :: values) held =
      Record.fill fields values (set held value) := by
  simp only [Record.fill, Field.mandatory, reads]
  rfl

theorem fill_optional {name : String} {decode : Json → Decoded α} {set : σ → Option α → σ}
    {held : σ} {encode : α → Json} {change : α → Option α}
    (reads : ∀ value, optional decode (encode value) = .ok (change value))
    (unset : set held none = held) (value : Option α) :
    Record.fill (.withDefault name (optional decode) set :: fields) (value.map encode :: values)
        held =
      Record.fill fields values (set held (value.bind change)) := by
  cases value with
  | none =>
      rw [Option.bind_none, unset]
      rfl
  | some value =>
      simp only [Option.map_some, Record.fill, Field.withDefault, reads]
      rfl

end Fields

theorem natural_ofNat (format : Format) (value : Nat) :
    natural format (.ofNat value) = .ok value := rfl

theorem string_string (format : Format) (value : String) :
    string format (.string value) = .ok value := rfl

theorem optional_ofBinary64 (value : Binary64) :
    optional (number .json) (.ofBinary64 value) = .ok (Option.guard Binary64.isFinite value) := by
  unfold Json.ofBinary64 Option.guard
  split <;> rfl

theorem decodeSpan_encodeSpan (span : Span) : decodeSpan (encodeSpan span) = .ok span := by
  have written : encodeSpan span = .object (Record.entries spanRecord.fields
      [some (.ofNat span.start), some (.ofNat span.stop)]) := rfl
  rw [written, decodeSpan, Record.decode_entries (by decide) rfl]
  rfl

/-- The values of the fields of a control. -/
def widgetValues (widget : WidgetDescriptor) : List (Option Json) :=
  [ some (.ofNat widget.span.start), some (.ofNat widget.span.stop),
    some (.string widget.kind.name), widget.value.map .string, widget.options.map .array,
    widget.min.map .ofBinary64, widget.max.map .ofBinary64, widget.step.map .ofBinary64,
    some (.string widget.id), widget.index.map .ofNat ]

theorem encodeWidget_eq_entries (widget : WidgetDescriptor) :
    encodeWidget widget =
      .object (Record.entries widgetRecord.fields (widgetValues widget)) := by
  simp only [encodeWidget, widgetRecord, widgetValues, entries_given, entries_optional, entries_nil,
    List.append_assoc, List.cons_append, List.nil_append, List.append_nil]
  rfl

theorem decodeWidget_encodeWidget (widget : WidgetDescriptor) :
    decodeWidget (encodeWidget widget) = .ok widget.received := by
  have strings : ∀ value, optional (string .json) (.string value) = .ok (some value) :=
    fun _ => rfl
  have items : ∀ values, optional (list .json .ok) (.array values) = .ok (some values) := by
    intro values
    have each : ∀ value : Json, (.ok (id value) : Decoded Json) = .ok (id value) := fun _ => rfl
    have all := decodeAll_map each values
    rw [List.map_id] at all
    rw [optional, list, all]
    · rfl
    · exact fun same => Json.noConfusion same
  have indices : ∀ value, optional (natural .json) (.ofNat value) = .ok (some value) :=
    fun _ => rfl
  rw [encodeWidget_eq_entries, decodeWidget, Record.decode_entries (by decide) rfl]
  unfold widgetRecord widgetValues
  simp only
  rw [fill_given (natural_ofNat ..), fill_given (natural_ofNat ..), fill_given (string_string ..),
    fill_optional strings rfl, fill_optional items rfl, fill_optional optional_ofBinary64 rfl,
    fill_optional optional_ofBinary64 rfl, fill_optional optional_ofBinary64 rfl,
    fill_given (string_string ..), fill_optional indices rfl]
  simp only [Option.bind_guard, Option.bind_fun_some]
  rfl

/-- A result that is written and read again comes back but for what its controls lose. -/
theorem decodeResult_encodeResult (result : Transpiled) :
    decodeResult (encodeResult result) = .ok result.received := by
  have span : ∀ value, decodeSpan (encodeSpan value) = .ok (id value) := decodeSpan_encodeSpan
  have spans : ∀ values, optional (list .json decodeSpan) (.array (values.map encodeSpan)) =
      .ok (some values) := by
    intro values
    rw [optional, list, decodeAll_map span, List.map_id]
    · rfl
    · exact fun same => Json.noConfusion same
  have widgets : ∀ values : List WidgetDescriptor,
      optional (list .json decodeWidget) (.array (values.map encodeWidget)) =
        .ok (some (values.map WidgetDescriptor.received)) := by
    intro values
    rw [optional, list, decodeAll_map decodeWidget_encodeWidget]
    · rfl
    · exact fun same => Json.noConfusion same
  have written : encodeResult result = .object (Record.entries resultRecord.fields
      [ some (.string result.output),
        result.locations.map fun spans => .array (spans.map encodeSpan),
        result.widgets.map fun widgets => .array (widgets.map encodeWidget) ]) := by
    simp only [encodeResult, resultRecord, entries_given, entries_optional, entries_nil,
      List.cons_append, List.nil_append, List.append_nil]
    rfl
  rw [written, decodeResult, Record.decode_entries (by decide) rfl]
  unfold resultRecord
  simp only
  rw [fill_given (string_string ..), fill_optional spans rfl, fill_optional widgets rfl]
  simp only [Option.bind_fun_some, Transpiled.received, Option.map_eq_bind]
  rfl

theorem decodeResult_encodeResult_eq_self_iff {result : Transpiled} :
    decodeResult (encodeResult result) = .ok result ↔
      ∀ widget ∈ result.widgets.getD [], widget.Survives := by
  rw [decodeResult_encodeResult, Except.ok.injEq, Transpiled.received_eq_self_iff]

/-! ## Results that were read -/

theorem isFinite_of_optional_number {given : Json} (expressible : given.isExpressible = true)
    {value : Option Binary64} (decoded : optional (number .json) given = .ok value) :
    ∀ bound ∈ value, bound.isFinite = true := by
  cases given with
  | null =>
      obtain rfl := Except.ok.inj decoded
      simp
  | integer whole =>
      obtain rfl := Except.ok.inj decoded
      rw [Json.isExpressible, decide_eq_true_eq] at expressible
      have small : whole.natAbs ≤ 2 ^ 64 := by omega
      simpa using Binary64.isFinite_ofInt small
  | float number =>
      obtain rfl := Except.ok.inj decoded
      simpa [Json.isExpressible] using expressible
  | bool | string | array | object => cases decoded

/-- A control that was read is no method of the name of a function, and its bounds are finite. -/
theorem survives_of_decodeWidget {value : Json} (expressible : value.isExpressible = true)
    {widget : WidgetDescriptor} (decoded : decodeWidget value = .ok widget) : widget.Survives := by
  refine Record.holds_decode (fun part => part.isExpressible = true) WidgetDescriptor.Survives ?_ ?_
    (Json.isExpressible_of_mem_parts expressible) decoded
  · constructor <;> simp [widgetRecord]
  · simp only [widgetRecord, List.forall_mem_cons, List.not_mem_nil, false_imp_iff, implies_true,
      and_true]
    refine ⟨?start, ?stop, ?type, ?value, ?options, ?min, ?max, ?step, ?id, ?index⟩
    case type =>
        refine Field.keeps_of_put rfl fun _ _ name held _ _ => { held with kind := ?_ }
        exact WidgetKind.ofName_name_eq_self_iff.mp (by rw [WidgetKind.name_ofName])
    case min =>
        exact Field.keeps_of_put rfl fun _ _ _ held expressible decoded =>
          { held with min := isFinite_of_optional_number expressible decoded }
    case max =>
        exact Field.keeps_of_put rfl fun _ _ _ held expressible decoded =>
          { held with max := isFinite_of_optional_number expressible decoded }
    case step =>
        exact Field.keeps_of_put rfl fun _ _ _ held expressible decoded =>
          { held with step := isFinite_of_optional_number expressible decoded }
    -- The other fields have no part in it.
    all_goals exact Field.keeps_of_put rfl fun _ _ _ held _ _ => { held with }

theorem survives_of_decodeResult {value : Json} (expressible : value.isExpressible = true)
    {result : Transpiled} (decoded : decodeResult value = .ok result) :
    ∀ widget ∈ result.widgets.getD [], widget.Survives := by
  refine Record.holds_decode (fun part => part.isExpressible = true)
    (fun result => ∀ widget ∈ result.widgets.getD [], widget.Survives) ?_ ?_
    (Json.isExpressible_of_mem_parts expressible) decoded
  · simp [resultRecord]
  · simp only [resultRecord, List.forall_mem_cons, List.not_mem_nil, false_imp_iff, implies_true,
      and_true]
    refine ⟨?output, ?locations, ?widgets⟩
    case widgets =>
        refine Field.keeps_of_put rfl fun _ given widgets _ expressible decoded => ?_
        cases given with
        | null =>
            obtain rfl := Except.ok.inj decoded
            simp
        | array items =>
            obtain ⟨controls, all, rfl⟩ := exists_of_map_eq_ok decoded
            intro widget member
            obtain ⟨item, isItem, read⟩ := mem_decodeAll all widget member
            exact survives_of_decodeWidget
              (Json.isExpressible_of_mem_parts expressible item isItem) read
        | bool | integer | float | string | object => cases decoded
    all_goals exact Field.keeps_of_put rfl fun _ _ _ held _ _ => held

/-- Reading a value that a result was read from and written to gives the result again, however the
first value was written. -/
theorem decodeResult_of_reread (value : Json) (expressible : value.isExpressible = true)
    (result : Transpiled) (decoded : decodeResult value = .ok result) :
    decodeResult (encodeResult result) = .ok result := by
  rw [decodeResult_encodeResult_eq_self_iff]
  exact survives_of_decodeResult expressible decoded

/-- A result in another form than the written one: a field that is not known, nothing for the
locations, a control as an array of its fields, and whole numbers for its bounds. -/
def looseResult : Json :=
  .object
    [ ("version", .integer (-2)),
      ("miniLocations", .null),
      ("widgets",
        .array
          [ .array
              [ .integer 7, .integer 10, .string "slider", .string "0.5", .null, .integer (-1),
                .integer 18446744073709551615, .null, .string "slider_7" ] ]),
      ("output", .string "slider(0.5)") ]

/-- What is read from it. -/
def readResult : Transpiled :=
  { output := "slider(0.5)"
    widgets := some
      [ { span := ⟨7, 10⟩
          kind := .slider
          value := some "0.5"
          min := some (.ofInt (-1))
          max := some (.ofInt 18446744073709551615)
          id := "slider_7" } ] }

theorem decodeResult_of_reread_loose :
    decodeResult looseResult = .ok readResult ∧
      decodeResult (encodeResult readResult) = .ok readResult :=
  ⟨rfl, decodeResult_of_reread looseResult (by decide +kernel) readResult rfl⟩

/-! ## Results of programs -/

section Programs

open Pass Script

theorem kind_of_nativeDescriptor? {control : NativeWidget} {source : SourceText}
    {values : List Node} {index : Nat} {descriptor : WidgetDescriptor}
    (described : nativeDescriptor? control source values index = some descriptor) :
    descriptor.kind = control.kind := by
  cases values with
  | nil => cases described
  | cons first rest => cases control <;> cases described <;> rfl

/-- A visit that describes a method describes one that is registered. -/
theorem isMethod_of_mem_look {context : PassContext} {ancestors : List Node}
    {node : Node} {counters : WidgetCounters} {widget : WidgetDescriptor}
    (member : widget ∈ (look context ancestors node counters).2.widgets) {name : String}
    (isMethod : widget.kind = .method name) : context.registry.isMethod name = true := by
  unfold look visit at member
  cases selected : Rule.select? context.registry
      (Shape.of context.source ancestors.head? node) with
  | none => simp [selected, Findings.ofVisit, Findings.ofPass] at member
  | some rule =>
      simp only [selected] at member
      cases Rule.matches_of_select? selected with
      | subLanguage _ _ _ _ _ known =>
          simp [apply, known, tagged, literalCall, replace, report_eq, Findings.ofVisit,
            Findings.ofPass] at member
      | tidal =>
          simp [apply, tagged, literalCall, replace, report_eq, Findings.ofVisit,
            Findings.ofPass] at member
      | templatePattern | stringPattern =>
          simp only [apply, pattern] at member
          split at member
          · simp [Findings.ofVisit, Findings.ofPass] at member
          · split at member <;>
              simp [literalCall, replace, report_eq, Findings.ofVisit, Findings.ofPass] at member
      | @nativeWidget _ arguments control _ _ _ _ _ _ _ =>
          simp only [apply, nativeWidget] at member
          split at member
          · simp [Findings.ofVisit, Findings.ofPass] at member
          case _ descriptor described =>
              simp only [replace, describe_eq, Findings.ofVisit, Findings.ofPass, List.nil_append,
                List.mem_ite_nil_right, List.mem_singleton] at member
              obtain ⟨_, rfl⟩ := member
              rw [kind_of_nativeDescriptor? described] at isMethod
              cases control <;> cases isMethod
      | widgetMethod _ _ _ _ _ _ known =>
          simp only [apply, widgetMethod, replace, describe_eq, Findings.ofVisit, Findings.ofPass,
            List.nil_append, List.mem_ite_nil_right, List.mem_singleton] at member
          obtain ⟨_, rfl⟩ := member
          exact WidgetKind.method.inj isMethod ▸ known
      | awaitSamples | label =>
          simp [apply, awaitSamples, label, replace, Findings.ofVisit, Findings.ofPass] at member

/-- Every method that is reported is registered. -/
theorem isMethod_of_mem_widgets {context : PassContext} {tree : Node}
    {widget : WidgetDescriptor} (member : widget ∈ (ofTree context tree).widgets) {name : String}
    (isMethod : widget.kind = .method name) : context.registry.isMethod name = true := by
  rw [ofTree_eq_absorb] at member
  refine holds_explore (fun found => ∀ widget ∈ found.widgets, ∀ name,
    widget.kind = .method name → context.registry.isMethod name = true) ?_ ?_ ?_ [] [] widget
    member name isMethod
  · simp
  · intro first second inFirst inSecond
    exact List.forall_mem_append.mpr ⟨inFirst, inSecond⟩
  · intro node _ ancestors counters widget found name
    exact isMethod_of_mem_look found

/-- A transpiled program that is written and read again is the same but for methods that have the
name of a function and for bounds that are not finite. It comes back whole exactly if there are none,
and there is no such method unless one is registered. -/
theorem transpile_received (text : String) (options : Options) (registry : Registry)
    (result : Transpiled) (transpiled : transpile text options registry = .ok result) :
    decodeResult (encodeResult result) = .ok result.received ∧
      (decodeResult (encodeResult result) = .ok result ↔
        ∀ widget ∈ result.widgets.getD [], widget.Survives) ∧
      ∀ widget ∈ result.widgets.getD [], ∀ name, widget.kind = .method name →
        registry.isMethod name = true := by
  refine ⟨decodeResult_encodeResult result, decodeResult_encodeResult_eq_self_iff, ?_⟩
  intro widget member name isMethod
  obtain ⟨tree, _, transpiled⟩ := exists_of_bind_eq_ok transpiled
  obtain ⟨output, _, transpiled⟩ := exists_of_bind_eq_ok transpiled
  obtain rfl := Except.ok.inj transpiled
  cases asked : options.emitWidgets with
  | false => simp [asked] at member
  | true =>
      simp only [asked, if_true, Option.getD_some] at member
      exact isMethod_of_mem_widgets member isMethod

/-- A slider without an upper end and a method, which is the only one of the two to come back. -/
theorem transpile_received_unbounded :
    ∃ result, transpile "slider(0.5, 0, 1e999).w()" {} { methods := ["w"] } = .ok result ∧
      result.widgets.map (List.map fun widget => (widget.kind, widget.max)) =
        some [(.method "w", none), (.slider, some (.infinity false))] ∧
      decodeResult (encodeResult result) = .ok result.received ∧
      result.received.widgets.map (List.map fun widget => (widget.kind, widget.max)) =
        some [(.method "w", none), (.slider, none)] := by
  obtain ⟨result, transpiled, holding⟩ := @exists_transpile_of_leading
    "slider(0.5, 0, 1e999).w()".toList {} { methods := ["w"] }
    (fun result =>
      result.widgets.map (List.map fun widget => (widget.kind, widget.max)) =
          some [(.method "w", none), (.slider, some (.infinity false))] ∧
        result.received.widgets.map (List.map fun widget => (widget.kind, widget.max)) =
          some [(.method "w", none), (.slider, none)])
    (by decide +kernel)
  rw [String.ofList_toList] at transpiled
  rw [decide_eq_true_eq] at holding
  exact ⟨result, transpiled, holding.1,
    (transpile_received _ {} { methods := ["w"] } result transpiled).1, holding.2⟩

/-- A slider without an upper end comes back with none given, and a method that has the name of a
function comes back as the function. -/
theorem controls_changed_by_reading :
    (∃ result, transpile "slider(0.5, 0, 1e999)" {} {} = .ok result ∧
      decodeResult (encodeResult result) ≠ .ok result) ∧
    ∃ result, transpile "x.slider()" {} { methods := ["slider"] } = .ok result ∧
      decodeResult (encodeResult result) ≠ .ok result := by
  constructor
  · obtain ⟨result, transpiled, lost⟩ := @exists_transpile_of_leading
      "slider(0.5, 0, 1e999)".toList {} {}
      (fun result => (result.widgets.getD []).any fun widget => widget.max == some (.infinity false))
      (by decide +kernel)
    rw [String.ofList_toList] at transpiled
    refine ⟨result, transpiled, fun same => ?_⟩
    simp only [List.any_eq_true, beq_iff_eq] at lost
    obtain ⟨widget, member, isUnbounded⟩ := lost
    have survives := decodeResult_encodeResult_eq_self_iff.mp same widget member
    exact absurd (survives.max _ isUnbounded) (by decide)
  · obtain ⟨result, transpiled, lost⟩ := @exists_transpile_of_leading
      "x.slider()".toList {} { methods := ["slider"] }
      (fun result => (result.widgets.getD []).any fun widget => widget.kind == .method "slider")
      (by decide +kernel)
    rw [String.ofList_toList] at transpiled
    refine ⟨result, transpiled, fun same => ?_⟩
    simp only [List.any_eq_true, beq_iff_eq] at lost
    obtain ⟨widget, member, isMethod⟩ := lost
    have survives := decodeResult_encodeResult_eq_self_iff.mp same widget member
    exact absurd (survives.kind _ isMethod) (by decide)

end Programs

end Wire

end PatternScript
