import PatternScript.Proofs.Transpile.Returning
import PatternScript.Transpile

/-!
Contract: which programs fail, and what stands behind the word that returns.

Whether the last statement can be returned is told from the kind of a label's statement; whether the
label is replaced is told from the first value of that statement. As long as every expression
statement has a value the two agree. So the only failures are faults of the tree and last statements
without a value, and a label is never left behind the word that returns.

Owns: the agreement, the exact causes of failure, and the replacement of a returned label.
Does not own: how a tree comes to have faults.
-/

namespace PatternScript

open Script Edits Rewriting

/-! ## Statements with a value -/

/-- A labelled expression statement is named. -/
theorem Rule.select?_label {registry : Registry} {source : SourceText} {parent : Option Node}
    {node label body expression : Node} (isLabeled : node.kind = .labeledStatement)
    (labelPart : node.child? .label = some label) (bodyPart : node.child? .body = some body)
    (isExpression : body.kind = .expressionStatement)
    (firstValue : body.values.head? = some expression) :
    select? registry (Shape.of source parent node) =
      some (.label (source.text label.range) expression) := by
  simp [Shape.of, isLabeled, Shape.ofLabeled, labelPart, bodyPart, isExpression, firstValue, select?]

namespace Ending

/-- The statement is an expression, or a labelled one that is named. -/
def HasValue (registry : Registry) (source : SourceText) (parent : Option Node)
    (statement : Node) : Prop :=
  statement.kind = .expressionStatement ∨
    statement.kind = .labeledStatement ∧
      ∃ name expression, Rule.select? registry (Shape.of source parent statement) =
        some (.label name expression)

/-- The two ways to tell whether a statement has a value agree. -/
theorem isReturnable_iff {source : SourceText} {statement : Node}
    (wellFormed : statement.WellFormed source.chars)
    (valued : ∀ body ∈ statement.children, body.kind = .expressionStatement → body.values ≠ [])
    (registry : Registry) (parent : Option Node) :
    isReturnable statement = true ↔ HasValue registry source parent statement := by
  unfold HasValue
  by_cases isExpression : statement.kind = .expressionStatement
  · simp [isReturnable, isExpression]
  by_cases isLabeled : statement.kind = .labeledStatement
  · obtain ⟨label, body, labelPart, bodyPart, _⟩ := wellFormed.exists_label_parts isLabeled
    have returned : isReturnable statement = true ↔ body.kind = .expressionStatement := by
      simp [isReturnable, isLabeled, bodyPart]
    rw [returned]
    constructor
    · intro holdsExpression
      obtain ⟨expression, _, values⟩ := List.exists_cons_of_ne_nil
        (valued body (Node.mem_children_of_child? bodyPart) holdsExpression)
      have firstValue : body.values.head? = some expression := by rw [values, List.head?_cons]
      exact .inr ⟨isLabeled, _, _,
        Rule.select?_label isLabeled labelPart bodyPart holdsExpression firstValue⟩
    · rintro (isExpression' | ⟨_, _, _, selected⟩)
      · contradiction
      · cases Rule.matches_of_select? selected with
        | label _ _ found holdsExpression =>
            obtain rfl := Option.some.inj (found.symm.trans bodyPart)
            exact holdsExpression
  · -- No other kind of statement is one or the other.
    have refused : isReturnable statement = false := by
      unfold isReturnable
      split <;> first | contradiction | rfl
    simp [refused, isExpression, isLabeled]

end Ending

namespace Pass

section Failures

variable {context : PassContext} {tree : Node}

/-- The replacements of a tree can always be written. -/
theorem exists_render_whole (wellFormed : tree.WellFormed context.source.chars) :
    ∃ text, (ofTree context tree).edits.render context.source.chars context.source.whole =
      .ok text := by
  have written := map_text_trace (ofTree context tree).edits context.source.chars
    context.source.whole
  rw [trace_ofTree wellFormed] at written
  exact ⟨_, written.symm⟩

/-- Written in two parts, the second starts with the text of the last statement. -/
theorem exists_render_last {last : Node} (wellFormed : tree.WellFormed context.source.chars)
    (isProgram : tree.kind = .program) (isLast : tree.statements.getLast? = some last) :
    ∃ before counters after,
      (ofTree context tree).edits.render context.source.chars ⟨0, last.start⟩ = .ok before ∧
      (ofTree context tree).edits.render context.source.chars
          ⟨last.start, context.source.byteLength⟩ =
        .ok ((rewrite context [tree] last counters).1.text ++ after) := by
  obtain ⟨before, after, _, firstWritten, secondWritten⟩ :=
    exists_render_at_last wellFormed isProgram isLast
  rw [rewriteAll_cons, Rewritten.weave, node_rewrite, SourceText.slice, Text.slice_self,
    List.nil_append] at secondWritten
  exact ⟨_, _, _, firstWritten, secondWritten⟩

/-- The text of a tree has no other fault than a last statement that cannot be returned. -/
theorem text_error_iff (wellFormed : tree.WellFormed context.source.chars)
    (isProgram : tree.kind = .program) (options : Options) {error : TranspileError} :
    Ending.text context.source tree (ofTree context tree).edits options = .error error ↔
      options.addReturn = true ∧ ∃ last, tree.statements.getLast? = some last ∧
        Ending.isReturnable last = false ∧
        error = .trailingStatement last.kind.name (.ofByte context.source last.start) := by
  obtain ⟨whole, wholeWritten⟩ := exists_render_whole wellFormed
  cases isLast : tree.statements.getLast? with
  | none =>
      simp [Ending.text, Ending.body, isLast, Ending.write, wholeWritten, bind, Except.bind, pure,
        Except.pure]
  | some last =>
      obtain ⟨before, _, _, firstWritten, secondWritten⟩ :=
        exists_render_last wellFormed isProgram isLast
      by_cases returning : options.addReturn = true
      · cases returnable : Ending.isReturnable last with
        | true =>
            simp [Ending.text, Ending.body, isLast, returning, Ending.requireReturnable, returnable,
              Ending.write, firstWritten, secondWritten, bind, Except.bind, pure, Except.pure]
        | false =>
            simp only [Ending.text, Ending.body, isLast, returning, Ending.requireReturnable,
              returnable, bind, Except.bind, if_true, Bool.false_eq_true, if_false, Except.error.injEq,
              Option.some.injEq, exists_eq_left', true_and]
            exact eq_comm
      · simp [Ending.text, Ending.body, isLast, returning, Ending.write, wholeWritten, bind,
          Except.bind, pure, Except.pure]

/-! ## Labels that are returned -/

/-- What is found at a top-level statement is recorded. -/
theorem mem_entries_of_look {child : Node} {edit : Edit}
    (wellFormed : tree.WellFormed context.source.chars) (isProgram : tree.kind = .program)
    (isChild : child ∈ tree.children)
    (found : ∀ counters, edit ∈ (look context [tree] child counters).2.edits) :
    edit ∈ (ofTree context tree).edits.entries := by
  have inChild : ∀ counters, edit ∈ (explore context [tree] child counters).edits := by
    intro counters
    have atChild := found counters
    cases looked : look context [tree] child counters with
    | mk action here =>
        rw [looked] at atChild
        cases action with
        | skip => rwa [explore_of_skip looked]
        | descend =>
            rw [explore_of_descend looked]
            exact List.mem_append_left _ atChild
  obtain ⟨before, after, children⟩ := List.append_of_mem isChild
  rw [entries_ofTree wellFormed, recorded_program isProgram, children, exploreAll_append, exploreAll]
  simp only [Findings.append, List.mem_append]
  exact .inr (.inl (inChild _))

/-- The text of a labelled expression statement starts with the expression and its name. -/
theorem exists_text_label {ancestors : List Node} {node label body expression : Node}
    (wellFormed : node.WellFormed context.source.chars)
    (isLabeled : node.kind = .labeledStatement) (labelPart : node.child? .label = some label)
    (bodyPart : node.child? .body = some body) (isExpression : body.kind = .expressionStatement)
    (firstValue : body.values.head? = some expression) (counters : WidgetCounters) :
    ∃ after, (rewrite context ancestors node counters).1.text =
      named expression.kind.isMemberSafe
          (rewrite context (body :: node :: ancestors) expression counters).1.text
          (context.source.text label.range) ++ after := by
  have selected := @Rule.select?_label context.registry context.source ancestors.head? _ _ _ _
    isLabeled labelPart bodyPart isExpression firstValue
  have manner : Manner.of context ancestors node counters =
      (.build (labeled context.source node.stop (context.source.text label.range)), counters) := by
    simp only [Manner.of, selected]
  obtain ⟨before, after, children, extras, isValue, _⟩ :=
    exploreAll_firstValue (wellFormed.child (Node.mem_children_of_child? bodyPart)) firstValue
      ancestors counters
  rw [rewrite_of_build manner]
  exact ⟨_, labeled_rewriteAll wellFormed isLabeled bodyPart isExpression children extras isValue _ _⟩

/-- A returned statement stands behind the word. -/
theorem text_of_returned {last : Node} {options : Options} {before after : List Char}
    (isLast : tree.statements.getLast? = some last) (returning : options.addReturn = true)
    (returnable : Ending.isReturnable last = true)
    (firstWritten : (ofTree context tree).edits.render context.source.chars ⟨0, last.start⟩ =
      .ok before)
    (secondWritten : (ofTree context tree).edits.render context.source.chars
      ⟨last.start, context.source.byteLength⟩ = .ok after) :
    Ending.text context.source tree (ofTree context tree).edits options =
      .ok (if options.wrapAsync then Ending.wrapped (before ++ "return ".toList ++ after)
        else before ++ "return ".toList ++ after) := by
  simp only [Ending.text, Ending.body, isLast, returning, Ending.requireReturnable, returnable,
    Ending.write, firstWritten, secondWritten]
  rfl

/-- The replacement of a label that is returned: it starts with the statement, covers the label, and
holds nothing of the program up to the end of the label. -/
structure ReplacesLabel (statement label : Node) (edit : Edit) : Prop where
  starts : edit.key.start = statement.start
  covers : label.range.Within edit.range
  leaves : ∀ range ∈ edit.emission.sources, label.stop ≤ range.start

/-- The label of a top-level expression statement is replaced. -/
theorem exists_replacesLabel {statement label body expression : Node}
    (wellFormed : tree.WellFormed context.source.chars) (isProgram : tree.kind = .program)
    (isChild : statement ∈ tree.children) (isLabeled : statement.kind = .labeledStatement)
    (labelPart : statement.child? .label = some label)
    (bodyPart : statement.child? .body = some body)
    (isExpression : body.kind = .expressionStatement)
    (firstValue : body.values.head? = some expression) :
    ∃ edit ∈ (ofTree context tree).edits.entries, ReplacesLabel statement label edit := by
  have selected := @Rule.select?_label context.registry context.source (some tree) _ _ _ _ isLabeled
    labelPart bodyPart isExpression firstValue
  have statementWellFormed := wellFormed.child isChild
  obtain ⟨_, inBody, _, expressionWellFormed⟩ :=
    expression_placed statementWellFormed isLabeled bodyPart firstValue
  have labelInside := statementWellFormed.placed.inside label
    (Node.mem_children_of_child? labelPart)
  -- The label stands before the body, and the expression inside the body.
  have apart : label.stop ≤ body.start := by
    obtain ⟨first, second, firstPart, secondPart, values, _⟩ :=
      statementWellFormed.exists_label_parts isLabeled
    obtain rfl := Option.some.inj (firstPart.symm.trans labelPart)
    obtain rfl := Option.some.inj (secondPart.symm.trans bodyPart)
    obtain ⟨front, between, back, children, _⟩ := Node.exists_twoValues values
    have ordered := statementWellFormed.placed.ordered
    rw [children, List.pairwise_append, List.pairwise_cons] at ordered
    exact ordered.2.1.1 _ (by simp)
  have behind : label.stop ≤ expression.start := Nat.le_trans apart inBody.1
  refine ⟨⟨⟨statement.start, expression.stop⟩,
    .method (if expression.kind.isMemberSafe then .source expression.range
      else .parens (.source expression.range)) "p" [.quoted (context.source.text label.range)]⟩,
    mem_entries_of_look wellFormed isProgram isChild fun counters => ?_, ?_⟩
  · simp [look, visit, selected, apply, Pass.label, replace, Edits.replace, Edits.insert,
      Findings.ofVisit, Findings.ofPass]
  · refine ⟨rfl, ⟨labelInside.1, Nat.le_trans behind expressionWellFormed.placed.forward⟩, ?_⟩
    have sources : ∀ safe : Bool, (Emission.method (if safe then .source expression.range
        else .parens (.source expression.range)) "p"
        [.quoted (context.source.text label.range)]).sources = [expression.range] := by
      intro safe
      cases safe <;> rfl
    rw [sources, List.forall_mem_singleton]
    exact behind

end Failures

/-! ## Whole programs -/

/-- The tree lies over the text the way a program does, and no expression statement is without a
value. -/
structure IsProgram (text : List Char) (tree : Node) : Prop where
  kind : tree.kind = .program
  wellFormed : tree.WellFormed text
  valued : ∀ node ∈ tree.preorder, node.kind = .expressionStatement → node.values.isEmpty = false

instance (text : List Char) (tree : Node) : Decidable (IsProgram text tree) :=
  decidable_of_iff
    (tree.kind = .program ∧ tree.WellFormed text ∧
      ∀ node ∈ tree.preorder, node.kind = .expressionStatement → node.values.isEmpty = false)
    ⟨fun ⟨kind, wellFormed, valued⟩ => ⟨kind, wellFormed, valued⟩,
      fun isProgram => ⟨isProgram.kind, isProgram.wellFormed, isProgram.valued⟩⟩

theorem IsProgram.isReturnable_iff {source : SourceText} {tree last : Node}
    (isProgram : IsProgram source.chars tree) (isLast : tree.statements.getLast? = some last)
    (registry : Registry) :
    Ending.isReturnable last = true ↔ Ending.HasValue registry source (some tree) last := by
  obtain ⟨before, after, children⟩ := exists_children_of_last isLast
  have isChild : last ∈ tree.children := by simp [children]
  apply Ending.isReturnable_iff (isProgram.wellFormed.child isChild)
  intro body isBody isExpression
  have below : body ∈ tree.preorder := Node.mem_preorder_of_child isChild
    (Node.mem_preorder_of_child isBody (Node.mem_preorder_self body))
  have nonempty := isProgram.valued body below isExpression
  rwa [List.isEmpty_eq_false_iff] at nonempty

/-- Transpiling a tree fails only where its text does. -/
theorem transpileTree_error_iff (source : SourceText) (tree : Node) (options : Options)
    (registry : Registry) {error : TranspileError} :
    transpileTree source tree options registry = .error error ↔
      Ending.text source tree (ofTree ⟨source, registry, options⟩ tree).edits options =
        .error error := by
  simp only [transpileTree]
  cases Ending.text source tree (ofTree ⟨source, registry, options⟩ tree).edits options <;>
    simp [bind, Except.bind, pure, Except.pure]

theorem IsProgram.transpileTree_error_iff {source : SourceText} {tree : Node}
    (isProgram : IsProgram source.chars tree) (options : Options) (registry : Registry)
    {error : TranspileError} :
    transpileTree source tree options registry = .error error ↔
      options.addReturn = true ∧ ∃ last, tree.statements.getLast? = some last ∧
        ¬Ending.HasValue registry source (some tree) last ∧
        error = .trailingStatement last.kind.name (.ofByte source last.start) := by
  rw [Pass.transpileTree_error_iff,
    @text_error_iff ⟨source, registry, options⟩ tree isProgram.wellFormed isProgram.kind]
  apply and_congr_right
  intro _
  apply exists_congr
  intro last
  apply and_congr_right
  intro isLast
  rw [← isProgram.isReturnable_iff isLast, Bool.not_eq_true]

/-- What follows the word if a labelled statement is returned. -/
theorem IsProgram.exists_label_returned {source : SourceText} {tree last : Node} {options : Options}
    {registry : Registry} {result : Transpiled} (isProgram : IsProgram source.chars tree)
    (transpiled : transpileTree source tree options registry = .ok result)
    (returning : options.addReturn = true) (isLast : tree.statements.getLast? = some last)
    (isLabeled : last.kind = .labeledStatement) :
    let context : PassContext := ⟨source, registry, options⟩
    let edits := (ofTree context tree).edits
    ∃ label body expression counters before after,
      last.child? .label = some label ∧
      (∃ edit ∈ edits.entries, ReplacesLabel last label edit) ∧
      edits.render source.chars ⟨0, last.start⟩ = .ok before ∧
      let value := (rewrite context [body, last, tree] expression counters).1.text
      let text := before ++ "return ".toList ++
        (named expression.kind.isMemberSafe value (source.text label.range) ++ after)
      result.output = String.ofList (if options.wrapAsync then Ending.wrapped text else text) := by
  intro context edits
  have returnable : Ending.isReturnable last = true := by
    apply Decidable.byContradiction
    intro refused
    have failed := (isProgram.transpileTree_error_iff options registry).mpr
      ⟨returning, last, isLast, mt (isProgram.isReturnable_iff isLast registry).mpr refused, rfl⟩
    rw [transpiled] at failed
    cases failed
  obtain ⟨front, back, children⟩ := exists_children_of_last isLast
  have isChild : last ∈ tree.children := by simp [children]
  have lastWellFormed := isProgram.wellFormed.child isChild
  -- The statement has a value, so the label is replaced.
  obtain isExpression | ⟨_, _, expression, selected⟩ :=
    (isProgram.isReturnable_iff isLast registry).mp returnable
  · rw [isLabeled] at isExpression
    cases isExpression
  cases Rule.matches_of_select? selected with
  | @label label body _ _ labelPart bodyPart isExpression firstValue =>
      obtain ⟨before, counters, rest, firstWritten, secondWritten⟩ :=
        @exists_render_last context tree last isProgram.wellFormed isProgram.kind isLast
      obtain ⟨after, text⟩ := @exists_text_label context [tree] _ _ _ _ lastWellFormed isLabeled
        labelPart bodyPart isExpression firstValue counters
      rw [text, List.append_assoc] at secondWritten
      refine ⟨label, body, expression, counters, before, after ++ rest, labelPart,
        exists_replacesLabel isProgram.wellFormed isProgram.kind isChild isLabeled labelPart bodyPart
          isExpression firstValue, firstWritten, ?_⟩
      have written := text_of_returned isLast returning returnable firstWritten secondWritten
      simp only [transpileTree] at transpiled
      rw [written] at transpiled
      obtain rfl := Except.ok.inj transpiled
      rfl

/-- The text of a label on a label. -/
def twiceLabeledText : List Char := "a:b:c".toList

/-- Its only statement. -/
def twiceLabeled : Node :=
  .mk .labeledStatement none ⟨0, 5⟩ [.mk .statementIdentifier (some .label) ⟨0, 1⟩ [],
    .mk .labeledStatement (some .body) ⟨2, 5⟩ [.mk .statementIdentifier (some .label) ⟨2, 3⟩ [],
      .mk .expressionStatement (some .body) ⟨4, 5⟩ [.mk .identifier none ⟨4, 5⟩ []]]]

/-- Its tree. -/
def twiceLabeledTree : Node :=
  .mk .program none ⟨0, 5⟩ [twiceLabeled]

/-- A tree is transpiled unless it has a fault or its last statement, which is to be returned, is
neither an expression nor a label that is replaced. If a label is returned, a replacement that starts
where the word is written covers it, and what follows the word is the expression with its name. -/
theorem transpile_fails_iff (source : SourceText) (tree : Node) (options : Options)
    (registry : Registry)
    (isProgram : tree.firstFault? = none → IsProgram source.chars tree) :
    let context : PassContext := ⟨source, registry, options⟩
    let edits := (ofTree context tree).edits
    let answer := requireSound source tree >>= fun sound =>
      transpileTree source sound options registry
    (∀ error, answer = .error error ↔
      (∃ fault, tree.firstFault? = some fault ∧
        error = .parse (faultMessage source fault) (.ofByte source fault.start)) ∨
      (tree.firstFault? = none ∧ options.addReturn = true ∧
        ∃ last, tree.statements.getLast? = some last ∧
          ¬Ending.HasValue registry source (some tree) last ∧
          error = .trailingStatement last.kind.name (.ofByte source last.start))) ∧
    ∀ result last, answer = .ok result → options.addReturn = true →
      tree.statements.getLast? = some last → last.kind = .labeledStatement →
      ∃ label body expression counters before after,
        last.child? .label = some label ∧
        (∃ edit ∈ edits.entries, ReplacesLabel last label edit) ∧
        edits.render source.chars ⟨0, last.start⟩ = .ok before ∧
        let value := (rewrite context [body, last, tree] expression counters).1.text
        let text := before ++ "return ".toList ++
          (named expression.kind.isMemberSafe value (source.text label.range) ++ after)
        result.output = String.ofList (if options.wrapAsync then Ending.wrapped text else text) := by
  intro context edits answer
  cases faults : tree.firstFault? with
  | some fault =>
      have refused : answer =
          .error (.parse (faultMessage source fault) (.ofByte source fault.start)) := by
        simp only [answer, requireSound, faults]
        rfl
      rw [refused]
      refine ⟨fun error => ?_, fun result last done => nomatch done⟩
      simp only [Except.error.injEq, Option.some.injEq, exists_eq_left', reduceCtorEq, false_and,
        or_false]
      exact eq_comm
  | none =>
      have isProgram := isProgram faults
      have accepted : answer = transpileTree source tree options registry := by
        simp only [answer, requireSound, faults]
        rfl
      rw [accepted]
      refine ⟨fun error => ?_, fun result last transpiled returning isLast isLabeled =>
        isProgram.exists_label_returned transpiled returning isLast isLabeled⟩
      rw [isProgram.transpileTree_error_iff]
      simp

/-- A label on a negative number is replaced where it is returned; a label on a label cannot be
returned. -/
theorem transpile_fails_iff_labels :
    IsProgram labeledText labeledTree ∧
      (transpileTree (.ofChars labeledText) labeledTree {} {}).toOption.map Transpiled.output =
        some "m(\"y\", 0);return (-1).p(\"a\")" ∧
      (∃ last label, labeledTree.statements.getLast? = some last ∧
        last.child? .label = some label ∧
        ∃ edit ∈ (ofTree ⟨.ofChars labeledText, {}, {}⟩ labeledTree).edits.entries,
          ReplacesLabel last label edit) ∧
      IsProgram twiceLabeledText twiceLabeledTree ∧
      transpileTree (.ofChars twiceLabeledText) twiceLabeledTree {} {} =
        .error (.trailingStatement "labeled_statement" ⟨0, 1, 1⟩) := by
  have isProgram : IsProgram labeledText labeledTree := by decide +kernel
  have isProgram' : IsProgram twiceLabeledText twiceLabeledTree := by decide +kernel
  have noValue : ¬Ending.HasValue {} (.ofChars twiceLabeledText) (some twiceLabeledTree)
      twiceLabeled :=
    mt (@IsProgram.isReturnable_iff (.ofChars twiceLabeledText) _ _ isProgram' rfl {}).mpr
      (by decide)
  have output : (transpileTree (.ofChars labeledText) labeledTree {} {}).toOption.map
      Transpiled.output = some "m(\"y\", 0);return (-1).p(\"a\")" := by decide +kernel
  refine ⟨isProgram, output, ?_, isProgram', ?_⟩
  · obtain ⟨_, returned⟩ :=
      transpile_fails_iff (.ofChars labeledText) labeledTree {} {} fun _ => isProgram
    cases transpiled : transpileTree (.ofChars labeledText) labeledTree {} {} with
    | error error =>
        rw [transpiled] at output
        cases output
    | ok result =>
        obtain ⟨label, _, _, _, _, _, labelPart, replaced, _⟩ :=
          returned result _ transpiled rfl rfl rfl
        exact ⟨_, label, rfl, labelPart, replaced⟩
  · exact ((transpile_fails_iff (.ofChars twiceLabeledText) twiceLabeledTree {} {}
      fun _ => isProgram').1 _).mpr (.inr ⟨by rfl, rfl, _, rfl, noValue, by rfl⟩)

end Pass

end PatternScript
