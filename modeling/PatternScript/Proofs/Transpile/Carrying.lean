import PatternScript.Proofs.Script.Closed
import PatternScript.Proofs.Transpile.Locations
import PatternScript.Proofs.Transpile.Returning
import PatternScript.Transpile

/-!
Contract: literals that come through rewriting as they are.

A string that is no notation keeps its text, and every text that is made around it holds it: weaving
puts it back in its place, wrapping calls, parentheses and names stand beside it, and the blanks and
the label that are dropped are before it. Only a template literal that is handed over as one text
drops what stands in its substitutions.

Owns: texts that hold others, the induction over the tree, and the end of the program.
Does not own: which strings are no notation.
-/

namespace PatternScript

open Script Rewriting Rewritten Edits
open Text (Boundary)

/-! ## Texts that hold others -/

/-- What starts with a character that is not blank is not touched by dropping blanks. -/
theorem Text.infix_trimLeft {c : Char} {rest text : List Char} (solid : isBlank c = false)
    (held : c :: rest <:+: text) : c :: rest <:+: trimLeft text := by
  obtain ⟨before, after, rfl⟩ := held
  unfold trimLeft
  induction before with
  | nil =>
      rw [List.nil_append, List.cons_append, List.dropWhile_cons_of_neg (by simp [solid])]
      exact ⟨[], after, rfl⟩
  | cons first more inductionHypothesis =>
      by_cases blank : isBlank first = true
      · rw [List.cons_append, List.cons_append, List.dropWhile_cons_of_pos blank]
        exact inductionHypothesis
      · rw [List.cons_append, List.cons_append, List.dropWhile_cons_of_neg blank]
        exact ⟨first :: more, after, rfl⟩

theorem Text.mem_trimLeft {c : Char} {text : List Char} (solid : isBlank c = false)
    (member : c ∈ text) : c ∈ trimLeft text := by
  obtain ⟨before, after, rfl⟩ := List.append_of_mem member
  have kept := infix_trimLeft solid (List.suffix_append before (c :: after)).isInfix
  exact kept.subset List.mem_cons_self

/-- A text is not blank if it holds a character that is not. -/
theorem Text.trim_ne_nil {c : Char} {text : List Char} (solid : isBlank c = false)
    (member : c ∈ text) : trim text ≠ [] := by
  intro empty
  have reversed := mem_trimLeft solid (List.mem_reverse.mpr (mem_trimLeft solid member))
  rw [trim, trimRight, List.reverse_eq_nil_iff] at empty
  rw [trimLeft, empty] at reversed
  cases reversed

theorem Text.slice_infix_slice {text : List Char} {inner outer : ByteRange}
    (within : inner.Within outer) (forward : inner.start ≤ inner.stop)
    (first : Boundary text outer.start) (innerFirst : Boundary text inner.start)
    (innerLast : Boundary text inner.stop) (last : Boundary text outer.stop) :
    slice text inner <:+: slice text outer := by
  refine ⟨slice text ⟨outer.start, inner.start⟩, slice text ⟨inner.stop, outer.stop⟩, ?_⟩
  have joined := slice_append_slice first innerFirst innerLast within.1 forward
  have whole := slice_append_slice first innerLast last (Nat.le_trans within.1 forward) within.2
  rw [← whole, ← joined]

namespace Rewritten

/-- What is woven holds the text of each part. -/
theorem infix_weave {source : SourceText} {part : Rewritten} {parts : List Rewritten}
    (member : part ∈ parts) (start stop : Nat) : part.text <:+: weave source start stop parts := by
  induction parts generalizing start with
  | nil => exact absurd member List.not_mem_nil
  | cons first rest inductionHypothesis =>
      rw [weave]
      rcases List.mem_cons.mp member with rfl | inRest
      · exact ⟨_, _, rfl⟩
      · exact (inductionHypothesis inRest first.node.stop).trans (List.suffix_append _ _).isInfix

end Rewritten

namespace Rewriting

variable {part expression callee given : List Char}

theorem infix_parenthesizedUnless (bare : Bool) (held : part <:+: expression) :
    part <:+: parenthesizedUnless bare expression := by
  cases bare with
  | true => exact held
  | false =>
      refine held.trans ?_
      simp only [parenthesizedUnless, Bool.false_eq_true, if_false]
      exact ⟨_, _, rfl⟩

theorem infix_named (safe : Bool) (name : String) (held : part <:+: expression) :
    part <:+: named safe expression name := by
  refine (infix_parenthesizedUnless safe held).trans ?_
  simp only [named, List.append_assoc]
  exact (List.prefix_append _ _).isInfix

theorem infix_awaited (standsAlone : Bool) (held : part <:+: expression) :
    part <:+: awaited standsAlone expression :=
  infix_parenthesizedUnless standsAlone (held.trans (List.suffix_append _ _).isInfix)

theorem infix_identifiedCall_callee (id : String) (held : part <:+: callee) :
    part <:+: identifiedCall callee id given := by
  refine held.trans ?_
  simp only [identifiedCall, List.append_assoc]
  exact (List.prefix_append _ _).isInfix

/-- The arguments lose no more than their leading blanks. -/
theorem infix_identifiedCall_given {c : Char} {rest : List Char} (id : String)
    (solid : Text.isBlank c = false) (held : c :: rest <:+: given) :
    c :: rest <:+: identifiedCall callee id given := by
  have kept := Text.infix_trimLeft solid held
  have nonempty : (Text.trimLeft given).isEmpty = false := by
    rw [List.isEmpty_eq_false_iff]
    intro empty
    rw [empty, List.infix_nil] at kept
    cases kept
  refine kept.trans ?_
  simp only [identifiedCall, nonempty, Bool.false_eq_true, if_false]
  exact ⟨callee ++ "(".toList ++ Text.quoteSingle id.toList ++ ", ".toList, ")".toList, by simp⟩

end Rewriting

namespace Pass

/-! ## Parts of a rewritten tree -/

section Parts

variable {context : PassContext} {ancestors : List Node}

theorem select?_of_isInert {parent : Option Node} {node : Node} (inert : node.IsInert) :
    Rule.select? context.registry (Shape.of context.source parent node) = none := by
  have noRule := inert.2
  simp only [List.mem_cons, List.not_mem_nil, or_false, not_or] at noRule
  exact Rule.select?_eq_none_of_kind noRule.1 noRule.2.1 noRule.2.2.1 noRule.2.2.2

/-- Each of some trees is rewritten and explored from the same counters. -/
theorem exists_mem_rewriteAll {nodes : List Node} {node : Node}
    (wellFormed : ∀ other ∈ nodes, other.WellFormed context.source.chars) (member : node ∈ nodes)
    (counters : WidgetCounters) :
    ∃ reached, (rewrite context ancestors node reached).1 ∈
        (rewriteAll context ancestors nodes counters).1 ∧
      ∀ edit ∈ (explore context ancestors node reached).edits,
        edit ∈ (exploreAll context ancestors nodes counters).edits := by
  induction nodes generalizing counters with
  | nil => exact absurd member List.not_mem_nil
  | cons first rest inductionHypothesis =>
      rw [List.forall_mem_cons] at wellFormed
      rw [rewriteAll_cons, exploreAll]
      rcases List.mem_cons.mp member with rfl | inRest
      · exact ⟨counters, List.mem_cons_self, fun edit found => List.mem_append_left _ found⟩
      · obtain ⟨reached, isPart, found⟩ := inductionHypothesis wellFormed.2 inRest
          (rewrite context ancestors first counters).2
        refine ⟨reached, List.mem_cons_of_mem _ isPart, fun edit inNode => ?_⟩
        rw [← counters_rewrite first wellFormed.1]
        exact List.mem_append_right _ (found edit inNode)

end Parts

/-! ## Strings that keep their text -/

/-- No template literal of a tree that one of some replacements hands over has the literal in a
substitution. -/
def Spared (source : SourceText) (tree literal : Node) (edits : List Edit) : Prop :=
  ∀ template ∈ tree.preorder, template.kind = .templateString →
    (∃ edit ∈ edits, edit.HandsOver source template) →
      ∀ substitution ∈ template.children, substitution.kind = .templateSubstitution →
        literal ∉ substitution.preorder

theorem Spared.mono {source : SourceText} {tree literal : Node} {edits fewer : List Edit}
    (spared : Spared source tree literal edits) (each : ∀ edit ∈ fewer, edit ∈ edits) :
    Spared source tree literal fewer :=
  fun template member isTemplate ⟨edit, isEdit, handsOver⟩ =>
    spared template member isTemplate ⟨edit, each edit isEdit, handsOver⟩

/-- The string is no notation. -/
structure IsKept (source : SourceText) (literal : Node) : Prop where
  isString : literal.kind = .string
  placed : literal.Placed source.chars
  scheme : holdsScheme (insideDelimiters (source.slice literal.range)) = true

section Keeping

variable {context : PassContext} {ancestors : List Node} {tree literal node : Node}
  {counters : WidgetCounters}

/-- A string starts with a quote. -/
theorem IsKept.exists_solid {source : SourceText} (kept : IsKept source literal) :
    ∃ c rest, source.slice literal.range = c :: rest ∧ Text.isBlank c = false := by
  rcases kept.placed.string kept.isString with delimited | delimited
  · obtain ⟨inner, sliced⟩ := delimited.exists_inner
    exact ⟨_, _, sliced, by decide⟩
  · obtain ⟨inner, sliced⟩ := delimited.exists_inner
    exact ⟨_, _, sliced, by decide⟩

theorem IsKept.text_rewrite (kept : IsKept context.source literal)
    (wellFormed : literal.WellFormed context.source.chars)
    (closed : literal.Closed context.source.chars) :
    (rewrite context ancestors literal counters).1.text = context.source.slice literal.range := by
  have manner : Manner.of context ancestors literal counters =
      (.build (weave context.source literal.start literal.stop), counters) := by
    cases selected : Rule.select? context.registry
        (Shape.of context.source ancestors.head? literal) with
    | none => simp only [Manner.of, selected]
    | some rule =>
        cases Rule.matches_of_select? selected with
        | stringPattern =>
            simp only [Manner.of, selected, Manner.ofLiteral, kept.scheme, if_true]
        | subLanguage kind | tidal kind | templatePattern kind | nativeWidget kind
        | widgetMethod kind | awaitSamples kind | label kind =>
            rw [kept.isString] at kind
            cases kind
  -- The pieces of a string are leaves without a rule.
  have inert := closed.string kept.isString
  rw [rewrite_of_build manner,
    rewriteAll_leaves (fun child isChild => select?_of_isInert (inert child isChild))
      (fun child isChild => List.isEmpty_iff.mp (inert child isChild).1)]
  exact weave_unchanged wellFormed.laid

/-- A template literal that is handed over has nothing to spare in it. -/
theorem Spared.not_mem {edits : List Edit} (spared : Spared context.source tree literal edits)
    {template : Node} (closed : template.Closed context.source.chars)
    (isTemplate : template.kind = .templateString) (member : template ∈ tree.preorder)
    (isString : literal.kind = .string)
    (handsOver : ∃ edit ∈ edits, edit.HandsOver context.source template) :
    ∀ child ∈ template.children, literal ∉ child.preorder := by
  intro child isChild inChild
  have substitution := closed.exists_substitution isTemplate (.inl isString) isChild inChild
  exact spared template member isTemplate handsOver child isChild substitution.1 inChild

/-- A call holds strings in its function and its arguments. -/
theorem eq_function_or_arguments {function arguments child : Node}
    (wellFormed : node.WellFormed context.source.chars) (isCall : node.kind = .callExpression)
    (functionPart : node.child? .function = some function)
    (argumentsPart : node.child? .arguments = some arguments)
    (isString : literal.kind = .string) (isChild : child ∈ node.children)
    (inChild : literal ∈ child.preorder) : child = function ∨ child = arguments := by
  have isValue := wellFormed.mem_values (.inl isString) isChild inChild
  simpa [wellFormed.values_call isCall functionPart argumentsPart] using isValue

theorem exists_handsOver_tagged {template : Node}
    (wellFormed : node.WellFormed context.source.chars) (isChild : template ∈ node.children)
    (isTemplate : template.kind = .templateString) (callee : String)
    (locate : List Char → Nat → List Span) :
    ∃ edit ∈ (Findings.ofVisit (tagged context node template callee locate
      { counters := counters })).2.edits, edit.HandsOver context.source template := by
  simp only [tagged, literalCall, replace, Findings.ofVisit, Findings.ofPass, report_eq,
    firstQuasi_eq_slice _ isTemplate]
  exact ⟨_, List.mem_singleton.mpr rfl, wellFormed.placed.inside template isChild, callee, _, _, rfl,
    .inr rfl⟩

theorem exists_handsOver_template (isTemplate : node.kind = .templateString)
    (plain : holdsScheme (firstQuasi context.source node) = false) :
    ∃ edit ∈ (Findings.ofVisit (pattern context node (firstQuasi context.source node)
      (.quoted (String.ofList (firstQuasi context.source node)))
      { counters := counters })).2.edits, edit.HandsOver context.source node := by
  rw [firstQuasi_eq_slice _ isTemplate] at plain ⊢
  simp only [pattern, plain, Bool.false_eq_true, if_false, literalCall, replace, report_eq]
  cases context.registry.defaultLanguage? <;>
    exact ⟨_, List.mem_singleton.mpr rfl, ⟨Nat.le_refl _, Nat.le_refl _⟩, _, _, _, rfl, .inr rfl⟩

/-- What stands between parentheses holds every string among the arguments. -/
theorem infix_between {arguments : Node} (wellFormed : arguments.WellFormed context.source.chars)
    (kind : arguments.kind = .arguments) (isString : literal.kind = .string)
    (member : literal ∈ arguments.preorder) :
    context.source.slice literal.range <:+:
      betweenParentheses (context.source.slice arguments.range) := by
  have delimited := wellFormed.placed.arguments kind
  obtain ⟨inner, sliced, sliceInner, opens, closes, _⟩ :=
    delimited.exists_slice_inner wellFormed.placed rfl rfl
  have between : betweenParentheses (context.source.slice arguments.range) =
      Text.slice context.source.chars ⟨arguments.start + 1, arguments.stop - 1⟩ := by
    rw [SourceText.slice, sliced, sliceInner]
    simp [betweenParentheses]
  have placed := (wellFormed.of_mem_preorder literal member).1.placed
  rcases Node.mem_preorder_iff.mp member with rfl | ⟨child, isChild, inChild⟩
  · rw [isString] at kind
    cases kind
  · have inside := delimited.between child isChild
    have within := ((wellFormed.child isChild).of_mem_preorder literal inChild).2
    rw [between]
    refine Text.slice_infix_slice ⟨?_, ?_⟩ placed.forward opens placed.first placed.last closes
    · exact Nat.le_trans inside.1 within.1
    · have stops := within.2
      simp only [Node.start, Node.stop] at *
      omega

/-- Nothing that is spared is lost where a node is replaced as a whole. -/
theorem infix_of_fold (wellFormed : node.WellFormed context.source.chars)
    (closed : ∀ other ∈ node.preorder, other.Closed context.source.chars)
    (inTree : ∀ other ∈ node.preorder, other ∈ tree.preorder)
    (kept : IsKept context.source literal) {child : Node} (isChild : child ∈ node.children)
    (inChild : literal ∈ child.preorder)
    (spared : Spared context.source tree literal (look context ancestors node counters).2.edits)
    {text : List Char} {counted : WidgetCounters}
    (manner : Manner.of context ancestors node counters = (.fold text, counted)) :
    context.source.slice literal.range <:+: text := by
  have isString := kept.isString
  have closedBelow : ∀ other ∈ node.children, other.Closed context.source.chars :=
    fun other member => closed other (Node.mem_preorder_of_child member (Node.mem_preorder_self _))
  -- A tag is a name, and its template literal is handed over.
  have noTag : ∀ {function template : Node}, node.kind = .callExpression →
      node.child? .function = some function → node.child? .arguments = some template →
      function.kind = .identifier → template.kind = .templateString →
      (∃ edit ∈ (look context ancestors node counters).2.edits,
        edit.HandsOver context.source template) → False := by
    intro function template isCall functionPart templatePart isName isTemplate handsOver
    have isFunction := Node.mem_children_of_child? functionPart
    have isArguments := Node.mem_children_of_child? templatePart
    rcases eq_function_or_arguments wellFormed isCall functionPart templatePart isString isChild
      inChild with rfl | rfl
    · exact (closedBelow child isFunction).not_mem_name isName (.inl isString) inChild
    · rcases Node.mem_preorder_iff.mp inChild with rfl | ⟨inner, isInner, inInner⟩
      · rw [isString] at isTemplate
        cases isTemplate
      · exact spared.not_mem (closedBelow child isArguments) isTemplate
          (inTree child (Node.mem_preorder_of_child isArguments (Node.mem_preorder_self _))) isString
          handsOver inner isInner inInner
  cases selected : Rule.select? context.registry
      (Shape.of context.source ancestors.head? node) with
  | none =>
      simp only [Manner.of, selected] at manner
      cases manner
  | some rule =>
      cases Rule.matches_of_select? selected with
      | subLanguage isCall functionPart templatePart isName isTemplate known =>
          refine absurd ?_ (noTag isCall functionPart templatePart isName isTemplate)
          simp only [look, visit, selected, apply, known]
          exact exists_handsOver_tagged wellFormed (Node.mem_children_of_child? templatePart)
            isTemplate _ _
      | tidal isCall functionPart templatePart isName isTemplate =>
          refine absurd ?_ (noTag isCall functionPart templatePart isName isTemplate)
          simp only [look, visit, selected, apply]
          exact exists_handsOver_tagged wellFormed (Node.mem_children_of_child? templatePart)
            isTemplate _ _
      | templatePattern isTemplate =>
          simp only [Manner.of, selected, Manner.ofLiteral] at manner
          by_cases scheme : holdsScheme (firstQuasi context.source node) = true
          · rw [if_pos scheme] at manner
            cases manner
          · refine absurd inChild (spared.not_mem (closed node (Node.mem_preorder_self _)) isTemplate
              (inTree node (Node.mem_preorder_self _)) isString ?_ child isChild)
            simp only [look, visit, selected, apply]
            exact exists_handsOver_template isTemplate (by simpa using scheme)
      | stringPattern kind =>
          have inert := (closed node (Node.mem_preorder_self _)).string kind child isChild
          exact absurd inChild (inert.not_mem_preorder (.inl isString))
      | @nativeWidget function arguments widget isCall functionPart argumentsPart isName isList _
          given =>
          obtain ⟨first, rest, values⟩ := List.exists_cons_of_ne_nil given
          simp only [Manner.of, selected, CallParts.values, values, Prod.mk.injEq,
            Manner.fold.injEq] at manner
          obtain ⟨rfl, _⟩ := manner
          -- The arguments are written as they stand.
          have isArguments := Node.mem_children_of_child? argumentsPart
          have argumentsWellFormed := wellFormed.child isArguments
          have argumentsKind := wellFormed.kind_arguments isCall argumentsPart isList
          rcases eq_function_or_arguments wellFormed isCall functionPart argumentsPart isString isChild
            inChild with rfl | rfl
          · exact absurd inChild ((closedBelow child isChild).not_mem_name isName (.inl isString))
          obtain ⟨c, more, sliced, solid⟩ := kept.exists_solid
          rw [sliced]
          refine infix_identifiedCall_given _ solid ?_
          rw [← sliced]
          exact infix_between argumentsWellFormed argumentsKind isString inChild
      | widgetMethod | awaitSamples | label =>
          simp only [Manner.of, selected] at manner
          cases manner

/-! ## The induction over the tree -/

/-- The rewritten node holds the text of the literal if the literal is spared. -/
def Carries (context : PassContext) (tree literal node : Node) : Prop :=
  ∀ (ancestors : List Node) (counters : WidgetCounters), literal ∈ node.preorder →
    Spared context.source tree literal (explore context ancestors node counters).edits →
      context.source.slice literal.range <:+: (rewrite context ancestors node counters).1.text

/-- What is woven from trees holds what one of them carries. -/
theorem infix_weave_of_carries {nodes : List Node} {child : Node}
    (wellFormed : ∀ other ∈ nodes, other.WellFormed context.source.chars)
    (carries : Carries context tree literal child) (isChild : child ∈ nodes)
    (inChild : literal ∈ child.preorder)
    (spared : Spared context.source tree literal
      (exploreAll context ancestors nodes counters).edits) (start stop : Nat) :
    context.source.slice literal.range <:+:
      weave context.source start stop (rewriteAll context ancestors nodes counters).1 := by
  obtain ⟨reached, isPart, found⟩ := @exists_mem_rewriteAll context ancestors nodes child wellFormed
    isChild counters
  exact (carries ancestors reached inChild (spared.mono found)).trans (infix_weave isPart start stop)

/-- A call that gets an identifier holds what its function and its arguments carry. -/
theorem infix_identified {function arguments child : Node} (id : String)
    (wellFormed : node.WellFormed context.source.chars) (isCall : node.kind = .callExpression)
    (functionPart : node.child? .function = some function)
    (argumentsPart : node.child? .arguments = some arguments)
    (isList : arguments.kind ≠ .templateString) (kept : IsKept context.source literal)
    (isChild : child ∈ node.children) (inChild : literal ∈ child.preorder)
    (functionCarries : Carries context tree literal function)
    (argumentCarries : ∀ argument ∈ arguments.children, Carries context tree literal argument)
    (spared : Spared context.source tree literal
      (exploreAll context ancestors node.children counters).edits) :
    let parts := (rewriteAll context ancestors node.children counters).1
    context.source.slice literal.range <:+:
      identifiedCall (textOf .function parts) id (betweenParentheses (textOf .arguments parts)) := by
  intro parts
  have functionWellFormed := wellFormed.child (Node.mem_children_of_child? functionPart)
  have argumentsWellFormed := wellFormed.child (Node.mem_children_of_child? argumentsPart)
  have argumentsKind := wellFormed.kind_arguments isCall argumentsPart isList
  obtain ⟨functionText, argumentsText⟩ :=
    @textOf_call context ancestors _ _ _ wellFormed isCall functionPart argumentsPart counters
  rw [edits_exploreAll_call wellFormed isCall functionPart argumentsPart isList] at spared
  rcases eq_function_or_arguments wellFormed isCall functionPart argumentsPart kept.isString isChild
    inChild with rfl | rfl
  · apply infix_identifiedCall_callee
    rw [functionText]
    exact functionCarries ancestors counters inChild
      (spared.mono fun edit found => List.mem_append_left _ found)
  · rcases Node.mem_preorder_iff.mp inChild with rfl | ⟨argument, isArgument, inArgument⟩
    · rw [kept.isString] at argumentsKind
      cases argumentsKind
    obtain ⟨c, rest, sliced, solid⟩ := kept.exists_solid
    rw [sliced]
    refine infix_identifiedCall_given id solid ?_
    rw [← sliced, argumentsText, between_rewrite_arguments argumentsWellFormed argumentsKind]
    refine infix_weave_of_carries (fun other member => argumentsWellFormed.child member)
      (argumentCarries argument isArgument) isArgument inArgument ?_ _ _
    exact spared.mono fun edit found => List.mem_append_right _ found

/-- A labelled expression statement holds what its expression and what follows it carry. -/
theorem infix_labeled {body expression child : Node} (name : String)
    (wellFormed : node.WellFormed context.source.chars)
    (isLabeled : node.kind = .labeledStatement) (bodyPart : node.child? .body = some body)
    (isExpression : body.kind = .expressionStatement)
    (firstValue : body.values.head? = some expression) (isString : literal.kind = .string)
    (isChild : child ∈ node.children) (inChild : literal ∈ child.preorder)
    (belowCarries : ∀ inner ∈ body.children, Carries context tree literal inner)
    (spared : Spared context.source tree literal
      (exploreAll context ancestors node.children counters).edits) :
    context.source.slice literal.range <:+:
      labeled context.source node.stop name
        (rewriteAll context ancestors node.children counters).1 := by
  obtain ⟨label, found, _, foundPart, values, _, labelKind, leaf⟩ :=
    wellFormed.exists_label_parts isLabeled
  obtain rfl := Option.some.inj (foundPart.symm.trans bodyPart)
  have bodyWellFormed := wellFormed.child (Node.mem_children_of_child? bodyPart)
  obtain ⟨before, after, children, extras, isValue, explored⟩ :=
    @exploreAll_labeled context ancestors _ _ _ wellFormed isLabeled bodyPart isExpression
      firstValue counters
  rw [explored, ← counters_rewrite expression (bodyWellFormed.child (by simp [children]))] at spared
  -- The label is a leaf, so the string is in the body.
  have isBody : child = found := by
    have isValue := wellFormed.mem_values (.inl isString) isChild inChild
    rw [values, List.mem_cons, List.mem_singleton] at isValue
    rcases isValue with rfl | same
    · have inert : child.IsInert := ⟨by simp [leaf], by simp [labelKind]⟩
      exact absurd inChild (inert.not_mem_preorder (.inl isString))
    · exact same
  subst isBody
  rcases Node.mem_preorder_iff.mp inChild with rfl | ⟨inner, isInner, inInner⟩
  · rw [isString] at isExpression
    cases isExpression
  rw [labeled_rewriteAll wellFormed isLabeled bodyPart isExpression children extras isValue]
  have carries := belowCarries inner isInner
  rw [children, List.mem_append, List.mem_cons] at isInner
  rcases isInner with inBefore | rfl | inAfter
  · have inert : inner.IsInert :=
      (bodyWellFormed.child (by simp [children, inBefore])).placed.isInert_of_extra
        (extras inner inBefore).1
    exact absurd inInner (inert.not_mem_preorder (.inl isString))
  · refine List.IsInfix.trans (infix_named _ name ?_) (List.prefix_append _ _).isInfix
    exact carries _ counters inInner (spared.mono fun edit found => List.mem_append_left _ found)
  · refine List.IsInfix.trans ?_ (List.suffix_append _ _).isInfix
    exact infix_weave_of_carries
      (fun other member => bodyWellFormed.child (by simp [children, member])) carries inAfter inInner
      (spared.mono fun edit found => List.mem_append_right _ found) _ _

/-- Every tree carries the strings that are no notation, and so do the trees below it. -/
theorem carries (kept : IsKept context.source literal) (node : Node) :
    node.WellFormed context.source.chars →
      (∀ other ∈ node.preorder, other.Closed context.source.chars) →
      (∀ other ∈ node.preorder, other ∈ tree.preorder) →
        Carries context tree literal node ∧
          ∀ child ∈ node.children, Carries context tree literal child := by
  induction node using Node.induction with
  | step kind role range children inductionHypothesis =>
      intro wellFormed closed inTree
      have below := fun child isChild => inductionHypothesis child isChild (wellFormed.child isChild)
        (fun other member => closed other (Node.mem_preorder_of_child isChild member))
        (fun other member => inTree other (Node.mem_preorder_of_child isChild member))
      refine ⟨?_, fun child isChild => (below child isChild).1⟩
      intro ancestors counters member spared
      rcases Node.mem_preorder_iff.mp member with rfl | ⟨child, isChild, inChild⟩
      · refine ⟨[], [], ?_⟩
        rw [kept.text_rewrite wellFormed (closed _ (Node.mem_preorder_self _)), List.nil_append,
          List.append_nil]
      have eachWellFormed : ∀ other ∈ children, other.WellFormed context.source.chars :=
        fun other isOther => wellFormed.child isOther
      -- What a visit records says how the text is made.
      have recorded := recorded_look wellFormed ancestors counters
      cases looked : look context ancestors (.mk kind role range children) counters with
      | mk action found =>
      cases manner : Manner.of context ancestors (.mk kind role range children) counters with
      | mk made counted =>
      rw [looked, manner] at recorded
      cases recorded with
      | folded =>
          rw [explore_of_skip looked] at spared
          rw [rewrite_of_fold manner]
          exact infix_of_fold wellFormed closed inTree kept isChild inChild (by rwa [looked]) manner
      | nothing same =>
          rw [explore_of_descend looked, same] at spared
          rw [rewrite_of_build manner]
          exact infix_weave_of_carries eachWellFormed (below child isChild).1 isChild inChild
            (spared.mono fun edit found => List.mem_append_right _ found) _ _
      | identified same isCall functionPart argumentsPart isList =>
          rw [explore_of_descend looked, same] at spared
          rw [rewrite_of_build manner]
          exact infix_identified _ wellFormed isCall functionPart argumentsPart isList kept isChild
            inChild (below _ (Node.mem_children_of_child? functionPart)).1
            (below _ (Node.mem_children_of_child? argumentsPart)).2
            (spared.mono fun edit found => List.mem_append_right _ found)
      | awaiting same =>
          rw [explore_of_descend looked, same] at spared
          rw [rewrite_of_build manner]
          refine infix_awaited _ (infix_weave_of_carries eachWellFormed (below child isChild).1
            isChild inChild (spared.mono fun edit found => List.mem_append_right _ found) _ _)
      | naming same isLabeled bodyPart isExpression firstValue =>
          rw [explore_of_descend looked, same] at spared
          rw [rewrite_of_build manner]
          exact infix_labeled _ wellFormed isLabeled bodyPart isExpression firstValue kept.isString
            isChild inChild (below _ (Node.mem_children_of_child? bodyPart)).2
            (spared.mono fun edit found => List.mem_append_right _ found)

end Keeping

/-! ## The end of the program -/

section Program

variable {context : PassContext} {tree literal : Node}

/-- What stands before silence keeps all but blanks. -/
theorem infix_beforeSilence {c : Char} {rest text : List Char} (solid : Text.isBlank c = false)
    (held : c :: rest <:+: text) : c :: rest <:+: Ending.beforeSilence text := by
  have nonempty : (Text.trim text).isEmpty = false := by
    rw [List.isEmpty_eq_false_iff]
    exact Text.trim_ne_nil solid (held.subset List.mem_cons_self)
  simp only [Ending.beforeSilence, nonempty, Bool.false_eq_true, if_false]
  split
  · exact held
  · exact held.trans (List.prefix_append _ _).isInfix

/-- The program written as a whole holds the strings that are no notation and are spared. -/
theorem exists_infix_whole (wellFormed : tree.WellFormed context.source.chars)
    (closed : ∀ node ∈ tree.preorder, node.Closed context.source.chars)
    (kept : IsKept context.source literal) (member : literal ∈ tree.preorder)
    (spared : Spared context.source tree literal (recorded context tree)) :
    ∃ whole, (ofTree context tree).edits.render context.source.chars context.source.whole =
        .ok whole ∧ context.source.slice literal.range <:+: whole := by
  have written := map_text_trace (ofTree context tree).edits context.source.chars
    context.source.whole
  rw [trace_ofTree wellFormed] at written
  have carried := (carries kept tree wellFormed closed fun _ other => other).1 [] [] member spared
  exact ⟨_, written.symm, carried.trans ⟨_, _, rfl⟩⟩

/-- Written in two parts around the start of its last statement, it holds them in one of the
parts. -/
theorem exists_infix_divided {last : Node} (wellFormed : tree.WellFormed context.source.chars)
    (closed : ∀ node ∈ tree.preorder, node.Closed context.source.chars)
    (isProgram : tree.kind = .program) (isLast : tree.statements.getLast? = some last)
    (kept : IsKept context.source literal) (member : literal ∈ tree.preorder)
    (spared : Spared context.source tree literal (recorded context tree)) :
    ∃ first second,
      (ofTree context tree).edits.render context.source.chars ⟨0, last.start⟩ = .ok first ∧
      (ofTree context tree).edits.render context.source.chars
          ⟨last.start, context.source.byteLength⟩ = .ok second ∧
      (context.source.slice literal.range <:+: first ∨
        context.source.slice literal.range <:+: second) := by
  obtain ⟨before, after, children, firstWritten, secondWritten⟩ :=
    exists_render_at_last wellFormed isProgram isLast
  have wellFormedBefore : ∀ child ∈ before, child.WellFormed context.source.chars :=
    fun child isChild => wellFormed.child (by simp [children, isChild])
  refine ⟨_, _, firstWritten, secondWritten, ?_⟩
  rw [recorded_program isProgram, children, exploreAll_append,
    ← counters_rewriteAll (fun child isChild =>
      counters_rewrite child (wellFormedBefore child isChild) _)] at spared
  rcases Node.mem_preorder_iff.mp member with rfl | ⟨child, isChild, inChild⟩
  · rw [kept.isString] at isProgram
    cases isProgram
  have carried := (carries kept tree wellFormed closed fun _ other => other).2 child isChild
  rw [children, List.mem_append] at isChild
  rcases isChild with inFront | inBack
  · left
    exact infix_weave_of_carries wellFormedBefore carried inFront inChild
      (spared.mono fun edit found => List.mem_append_left _ found) _ _
  · right
    exact infix_weave_of_carries
      (fun other isOther => wellFormed.child (children ▸ List.mem_append_right _ isOther)) carried
      inBack inChild (spared.mono fun edit found => List.mem_append_right _ found) _ _

/-- The text of a program holds them however it ends. -/
theorem infix_body {options : Options} {body : List Char}
    (wellFormed : tree.WellFormed context.source.chars)
    (closed : ∀ node ∈ tree.preorder, node.Closed context.source.chars)
    (isProgram : tree.kind = .program)
    (kept : IsKept context.source literal) (member : literal ∈ tree.preorder)
    (spared : Spared context.source tree literal (recorded context tree))
    (written : Ending.body context.source tree (ofTree context tree).edits options = .ok body) :
    context.source.slice literal.range <:+: body := by
  obtain ⟨whole, wholeWritten, inWhole⟩ := exists_infix_whole wellFormed closed kept member spared
  cases isLast : tree.statements.getLast? with
  | none =>
      simp only [Ending.body, isLast, Ending.write, wholeWritten] at written
      obtain rfl := Except.ok.inj written
      obtain ⟨c, rest, sliced, solid⟩ := kept.exists_solid
      rw [sliced] at inWhole ⊢
      simp only [List.append_assoc]
      exact (infix_beforeSilence solid inWhole).trans (List.prefix_append _ _).isInfix
  | some last =>
      by_cases returning : options.addReturn = true
      · obtain ⟨first, second, firstWritten, secondWritten, held⟩ :=
          exists_infix_divided wellFormed closed isProgram isLast kept member spared
        simp only [Ending.body, isLast, returning, Ending.requireReturnable, Ending.write,
          firstWritten, secondWritten] at written
        cases returnable : Ending.isReturnable last with
        | false =>
            rw [returnable] at written
            cases written
        | true =>
            rw [returnable] at written
            obtain rfl := Except.ok.inj written
            rcases held with inFirst | inSecond
            · rw [List.append_assoc]
              exact inFirst.trans (List.prefix_append _ _).isInfix
            · exact inSecond.trans (List.suffix_append _ _).isInfix
      · simp only [Ending.body, isLast, returning, Ending.write, wholeWritten] at written
        obtain rfl := Except.ok.inj written
        exact inWhole

end Program

/-- The output of a program holds the strings that are no notation and are spared. -/
theorem infix_output {source : SourceText} {tree literal : Node} {options : Options}
    {registry : Registry} (wellFormed : tree.WellFormed source.chars)
    (closed : ∀ node ∈ tree.preorder, node.Closed source.chars) (isProgram : tree.kind = .program)
    (kept : IsKept source literal) (member : literal ∈ tree.preorder)
    (spared : Spared source tree literal (recorded ⟨source, registry, options⟩ tree))
    {result : Transpiled} (transpiled : transpileTree source tree options registry = .ok result) :
    source.slice literal.range <:+: result.output.toList := by
  simp only [transpileTree, Ending.text] at transpiled
  cases written : Ending.body source tree (ofTree ⟨source, registry, options⟩ tree).edits
      options with
  | error error =>
      rw [written] at transpiled
      cases transpiled
  | ok body =>
      have held := @infix_body ⟨source, registry, options⟩ tree literal options body wellFormed closed
        isProgram kept member spared written
      rw [written] at transpiled
      obtain rfl := Except.ok.inj transpiled
      simp only [String.toList_ofList]
      split
      · exact held.trans ⟨_, _, rfl⟩
      · exact held

end Pass

end PatternScript
