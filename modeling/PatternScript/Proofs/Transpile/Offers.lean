import PatternScript.Json.Text
import PatternScript.Proofs.Script.Strings
import PatternScript.Proofs.Transpile.Anchors

/-!
Contract: the values that a control offers to choose from.

The call of a control with values to choose from is described by one value for each argument, in order,
with comments left out. A string is described by the text between its quotes. The program passes the
string that its literal denotes; the two are the same just if the literal has no backslash, as every
escape denotes less than it takes.

Owns: what is offered for each argument, and for which strings it is what the program passes.
Does not own: the values of numbers.
-/

namespace PatternScript

open Script

/-- The text between quotes of one byte. -/
theorem insideDelimiters_quoted {quote : Char} (isQuote : quote = '"' ∨ quote = '\'')
    (inside : List Char) : insideDelimiters (quote :: (inside ++ [quote])) = inside := by
  have one : quote.utf8Size = 1 := by
    rcases isQuote with rfl | rfl <;> rfl
  have split : quote :: (inside ++ [quote]) = [quote] ++ (inside ++ [quote]) := rfl
  rw [insideDelimiters, split]
  refine Text.slice_eq_of_append (by simp [one]) ?_
  simp only [Text.byteLength_append, Text.byteLength_cons, Text.byteLength_nil, one]
  omega

namespace Pass

/-- What is offered for an argument. If the argument is a string literal, it is a text, and it is the
string that the literal denotes just if there is no backslash in the literal. -/
def OfferedFor (source : SourceText) (argument : Node) (offered : Json) : Prop :=
  argument.kind = .string → ∀ units,
    readLiteral? (source.slice argument.range) = some (units, []) →
      ∃ value, offered = .string value ∧
        (unitsOf value.toList = units ↔ '\\' ∉ source.slice argument.range)

theorem offeredFor_literalValue (source : SourceText) (argument : Node) :
    OfferedFor source argument (literalValue source argument) := by
  intro isString units read
  obtain ⟨quote, inside, isQuote, text, denotesItself⟩ := exists_of_readLiteral? read
  have offered : literalValue source argument = .string (String.ofList inside) := by
    simp only [literalValue, isString, text, insideDelimiters_quoted isQuote]
  refine ⟨_, offered, ?_⟩
  rw [String.toList_ofList]
  exact denotesItself

/-- A descriptor offers a value for each argument of a call that is not a comment, in their order. -/
def Offers (context : PassContext) (call : Visit Pass) (widget : WidgetDescriptor) : Prop :=
  ∃ arguments offered, call.place.focus.CallsControl context.source .radio arguments ∧
    widget.options = some offered ∧
    List.Forall₂ (OfferedFor context.source)
      (arguments.children.filter fun child => !child.kind.isExtra) offered

/-- The call of a control with values to choose from is described by a descriptor that offers them. -/
theorem found_radio {context : PassContext} {call : Visit Pass}
    (called : callsFunction context "radio" call.place = true) :
    ∃ widget, (found context call).widgets = (if context.options.emitWidgets then [widget] else []) ∧
      widget.kind = .radio ∧ Offers context call widget := by
  obtain ⟨place, state⟩ := call
  unfold callsFunction ruleAt? at called
  split at called
  case h_1 control parts selected =>
      obtain rfl : control = .radio := by
        cases control with
        | radio => rfl
        | slider | toggle => exact absurd called (by decide)
      unfold found look visit
      rw [selected]
      cases Rule.matches_of_select? selected with
      | @nativeWidget function arguments _ isCall functionPart argumentsPart isName isList isControl
          given =>
          obtain ⟨first, rest, values⟩ := List.exists_cons_of_ne_nil given
          simp only [apply, nativeWidget, CallParts.values, values, nativeDescriptor?, describe_eq]
          refine ⟨_, rfl, rfl, arguments, _, ?_, rfl, ?_⟩
          · exact ⟨isCall, ⟨function, functionPart, isName, isControl⟩, argumentsPart, isList, given⟩
          · rw [← values]
            exact List.forall₂_map_right_iff.mpr
              (List.forall₂_same.mpr fun argument _ => offeredFor_literalValue _ argument)
  case h_2 => cases called

/-- No other visit describes a control of that kind. -/
theorem found_not_radio {context : PassContext} {call : Visit Pass}
    (notCalled : ¬ callsFunction context "radio" call.place = true) :
    (found context call).widgets.filter (fun widget => widget.kind = .radio) = [] := by
  rw [List.filter_eq_nil_iff]
  intro widget member
  rw [decide_eq_true_eq]
  intro isRadio
  apply notCalled
  cases describes_of_mem_found member with
  | function matched _ kind => simp [callsFunction, matched, ← kind, isRadio, WidgetKind.name]
  | method _ kind =>
      rw [kind] at isRadio
      cases isRadio

/-- Every call of a control with values to choose from that is rewritten has a descriptor of its own,
in the order of the calls, which offers one value for each argument. The value offered for a string
literal is the string that the program passes just if the literal has no backslash. -/
theorem offered_values (context : PassContext) (tree : Node) :
    List.Forall₂ (Offers context)
      (if context.options.emitWidgets then
        (visits context tree).filter fun call => callsFunction context "radio" call.place
      else [])
      ((ofTree context tree).widgets.filter fun widget => widget.kind = .radio) := by
  rw [widgets_ofTree]
  induction visits context tree with
  | nil => split <;> exact .nil
  | cons call rest inductionHypothesis =>
      rw [List.flatMap_cons, List.filter_append, List.filter_cons]
      by_cases called : callsFunction context "radio" call.place = true
      · obtain ⟨widget, reported, isRadio, offers⟩ := found_radio called
        rw [reported, if_pos called]
        split
        case isTrue asked =>
            rw [if_pos asked] at inductionHypothesis
            rw [List.filter_cons_of_pos (by simpa using isRadio)]
            exact .cons offers inductionHypothesis
        case isFalse notAsked =>
            rw [if_neg notAsked] at inductionHypothesis
            exact inductionHypothesis
      · rw [found_not_radio called, if_neg called]
        exact inductionHypothesis

/-- A quote in single quotes is offered with its backslash, and passed without. -/
theorem escape_offered :
    (∃ result, transpile "radio('it\\'s')" {} .empty = .ok result ∧
      result.output = "return radioWithID('radio_6', 'it\\'s')" ∧
      result.widgets.map (List.map fun widget => widget.options.map (List.map Json.compact)) =
        some [some ["\"it\\\\'s\"".toList]]) ∧
    readLiteral? "'it\\'s'".toList = some (unitsOf "it's".toList, []) := by
  refine ⟨?_, by decide +kernel⟩
  obtain ⟨result, transpiled, holding⟩ := @exists_transpile_of_leading "radio('it\\'s')".toList {}
    .empty
    (fun result => result.output = "return radioWithID('radio_6', 'it\\'s')" ∧
      result.widgets.map (List.map fun widget => widget.options.map (List.map Json.compact)) =
        some [some ["\"it\\\\'s\"".toList]])
    (by decide +kernel)
  rw [String.ofList_toList] at transpiled
  rw [decide_eq_true_eq] at holding
  exact ⟨result, transpiled, holding⟩

end Pass

end PatternScript
