import PatternScript.Proofs.Text.Quoted
import PatternScript.Proofs.Transpile.Counting

/-!
Contract: the identifiers that a program hands to its controls.

An identifier is handed over as a literal in single quotes. That of a function is made of the name of
its kind and digits, so its literal always denotes it. That of a method starts with whatever the caller
is called and holds the name of the method; if one of these has a line end, the literal is cut off
there, and no string is handed over at all.

Owns: which identifiers are denoted by their literals, and that these are the reported ones.
Does not own: telling identifiers apart.
-/

namespace PatternScript

open Script

/-- The literal that is written for an identifier denotes it if a condition holds, and is no literal
otherwise. -/
def SpelledJustIf (id : String) (condition : Prop) : Prop :=
  ∀ write owner, ∃ text, Edits.writeEmission write owner (.identifier id) = .ok text ∧
    (condition → Spells '\'' id.toList text) ∧
    (¬ condition → ∀ behind, readLiteral? (text ++ behind) = none)

theorem spelledJustIf_oneLine (id : String) : SpelledJustIf id (OneLine id.toList) := by
  intro write owner
  refine ⟨_, rfl, Text.spells_quoteSingle, ?_⟩
  intro lineEnds behind
  rw [Text.readLiteral?_quoteSingle, if_neg lineEnds]

theorem oneLine_repr (number : Nat) : OneLine (Nat.repr number).toList := by
  rw [Nat.repr_eq_ofList_toDigits, String.toList_ofList]
  constructor <;> intro member <;>
    exact absurd (Nat.isDigit_of_mem_toDigits (by decide) (by decide) member) (by decide)

/-- The identifier of a function is one line. -/
theorem NativeWidget.oneLine_id (control : NativeWidget) (offset : Nat) :
    OneLine (control.id offset).toList := by
  have name : OneLine control.kind.name.toList := by
    cases control <;> decide
  simp only [id, String.toList_append, oneLine_append]
  exact ⟨⟨name, by decide⟩, oneLine_repr offset⟩

/-- The identifier of a method is one line if what the caller and the method are called is. -/
theorem oneLine_methodWidgetId {caller : Option String} {method : String} {index : Nat} :
    OneLine (methodWidgetId caller method index).toList ↔
      OneLine (caller.getD "").toList ∧ OneLine method.toList := by
  have between : OneLine "_widget_".toList ∧ OneLine "_".toList := by decide
  simp only [methodWidgetId, String.toList_append, oneLine_append, between, oneLine_repr, and_true]

/-- What the identifier of a control is made of has no line end: for a method, what it and the caller
are called. -/
def WidgetDescriptor.NamedInLine (caller : Option String) (widget : WidgetDescriptor) : Prop :=
  match widget.kind with
  | .method name => OneLine (caller.getD "").toList ∧ OneLine name.toList
  | _ => True

namespace Pass

/-- The identifier of a described control is one line if what it is made of is. -/
theorem Describes.oneLine_id {context : PassContext} {place : Cursor} {number : Nat}
    {widget : WidgetDescriptor} (describes : Describes context place number widget) :
    OneLine widget.id.toList ↔ widget.NamedInLine context.options.callerId := by
  unfold WidgetDescriptor.NamedInLine
  cases describes with
  | @function control _ _ _ _ _ kind _ _ id _ =>
      rw [kind, id]
      cases control <;> exact iff_true_intro (NativeWidget.oneLine_id _ _)
  | method _ kind _ _ id _ =>
      rw [kind, id]
      exact oneLine_methodWidgetId

/-- Each control that is reported describes the control at some place. -/
theorem exists_describes {context : PassContext} {tree : Node} {widget : WidgetDescriptor}
    (member : widget ∈ (ofTree context tree).widgets) :
    ∃ place number, Describes context place number widget := by
  rw [widgets_ofTree, List.mem_flatMap] at member
  obtain ⟨call, -, isFound⟩ := member
  exact ⟨_, _, describes_of_mem_found isFound⟩

/-- The identifiers in the replacements for a well-formed tree are the reported ones. -/
theorem identifiers_entries {context : PassContext} {tree : Node}
    (wellFormed : tree.WellFormed context.source.chars)
    (asked : context.options.emitWidgets = true) :
    (ofTree context tree).edits.entries.filterMap Edit.identifier? =
      (ofTree context tree).widgets.map WidgetDescriptor.id := by
  have reported := ids_explore context [] tree []
  rw [if_pos asked] at reported
  have widgets : (ofTree context tree).widgets = (explore context [] tree []).widgets := by
    simp only [ofTree_eq_absorb]
    rfl
  rw [entries_ofTree wellFormed, widgets, reported]
  rfl

/-- Whatever the caller and a method are called, the literal of an identifier denotes it if both are
called by one line each, and is no literal otherwise. The identifiers that a program puts into calls
are those of the reported controls; so each of them is denoted by its literal, except that of a method
where one of the two names has a line end. -/
theorem identifiers_spelled (source : SourceText) (tree : Node) (options : Options)
    (registry : Registry) (wellFormed : tree.WellFormed source.chars)
    (asked : options.emitWidgets = true) :
    let pass := ofTree ⟨source, registry, options⟩ tree
    (∀ caller method index, SpelledJustIf (methodWidgetId caller method index)
      (OneLine (caller.getD "").toList ∧ OneLine method.toList)) ∧
    pass.edits.entries.filterMap Edit.identifier? = pass.widgets.map WidgetDescriptor.id ∧
    ∀ widget ∈ pass.widgets, SpelledJustIf widget.id (widget.NamedInLine options.callerId) := by
  intro pass
  refine ⟨?_, @identifiers_entries ⟨source, registry, options⟩ tree wellFormed asked, ?_⟩
  · intro caller method index
    rw [← @oneLine_methodWidgetId caller method index]
    exact spelledJustIf_oneLine _
  · intro widget member
    obtain ⟨place, number, describes⟩ := exists_describes member
    have named : OneLine widget.id.toList ↔ widget.NamedInLine options.callerId :=
      describes.oneLine_id
    rw [← named]
    exact spelledJustIf_oneLine _

/-- Two calls of a method for a caller whose name has a quote and a backslash, and a function. -/
theorem identifiers_spelled_quote :
    let options : Options := { callerId := some "it's\\" }
    let pass := ofTree ⟨.ofChars controlsText, { methods := ["w"] }, options⟩ controlsTree
    controlsTree.WellFormed controlsText ∧
    pass.edits.entries.filterMap Edit.identifier? =
      ["it's\\_widget_w_0", "it's\\_widget_w_1", "slider_11"] ∧
    Spells '\'' "it's\\_widget_w_0".toList "'it\\'s\\\\_widget_w_0'".toList := by
  intro options pass
  have wellFormed : controlsTree.WellFormed controlsText := by decide +kernel
  obtain ⟨literals, carried, -⟩ := identifiers_spelled (.ofChars controlsText) controlsTree options
    { methods := ["w"] } wellFormed rfl
  refine ⟨wellFormed, carried.trans (by decide +kernel), ?_⟩
  obtain ⟨text, written, spells, -⟩ := literals (some "it's\\") "w" 0 (fun _ _ => .ok []) ⟨0, 0⟩
  have same : text = "'it\\'s\\\\_widget_w_0'".toList := by
    rw [Edits.writeEmission, Except.ok.injEq] at written
    rw [← written]
    decide +kernel
  rw [← same]
  exact spells (by decide)

/-- A caller whose name has a line feed: the reported identifier has it too, and the literal in the
program breaks off at the end of its first line. -/
theorem identifier_broken_off :
    (∃ result, transpile "x.w()" { callerId := some "a\nb" } { methods := ["w"] } = .ok result ∧
      result.output = "return x.w('a\nb_widget_w_0')" ∧
      result.widgets.map (List.map WidgetDescriptor.id) = some ["a\nb_widget_w_0"]) ∧
    readLiteral? "'a\nb_widget_w_0')".toList = none := by
  refine ⟨?_, by decide +kernel⟩
  obtain ⟨result, transpiled, holding⟩ := @exists_transpile_of_leading "x.w()".toList
    { callerId := some "a\nb" } { methods := ["w"] }
    (fun result => result.output = "return x.w('a\nb_widget_w_0')" ∧
      result.widgets.map (List.map WidgetDescriptor.id) = some ["a\nb_widget_w_0"])
    (by decide +kernel)
  rw [String.ofList_toList] at transpiled
  rw [decide_eq_true_eq] at holding
  exact ⟨result, transpiled, holding⟩

end Pass

end PatternScript
