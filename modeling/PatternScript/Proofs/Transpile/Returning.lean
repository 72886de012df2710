import PatternScript.Proofs.Transpile.Choices
import PatternScript.Proofs.Transpile.Splicing

/-!
Contract: what the end of a program changes about its text.

No replacement reaches over the start of a top-level statement, not even that of a label, which
starts right there. So the program can be written in two parts around that place, and writing the
word that returns a value between the parts is all that returning the last statement does. The
function around a program is put around its text as it is.

Owns: writing a program in parts, and the outputs under the options for its end.
Does not own: the text of the parts.
-/

namespace PatternScript

open Script Edits Rewritten
open Text (Boundary)

/-- The text of nodes in a row can be divided between any two of them. -/
theorem Rewritten.weave_append {source : SourceText} {start place stop : Nat}
    {before after : List Rewritten} (inFront : Node.Laid source.chars place start (before.map node))
    (inBack : Node.Laid source.chars stop place (after.map node)) :
    weave source start stop (before ++ after) =
      weave source start place before ++ weave source place stop after := by
  induction before generalizing start with
  | nil => exact weave_eq_slice_append inFront.first inFront.le inBack
  | cons part rest inductionHypothesis =>
      cases inFront with
      | cons _ _ _ _ more =>
          simp only [List.cons_append, weave, inductionHypothesis more, List.append_assoc]

theorem Ending.ofList_wrapped (body : List Char) :
    String.ofList (Ending.wrapped body) =
      "(async () => \x7b\n" ++ String.ofList body ++ "\n\x7d)()" := by
  unfold Ending.wrapped
  rw [String.ofList_append, String.ofList_append, String.ofList_toList, String.ofList_toList]

namespace Pass

section Parts

variable {context : PassContext} {tree : Node}

/-- A part of a program that divides no top-level child is written with the children in it. -/
theorem render_children {front nodes back : List Node} {start stop : Nat}
    (wellFormed : tree.WellFormed context.source.chars) (isProgram : tree.kind = .program)
    (children : tree.children = front ++ (nodes ++ back))
    (atStart : Boundary context.source.chars start) (atStop : Boundary context.source.chars stop)
    (forward : start ≤ stop) (inFront : ∀ child ∈ front, child.stop ≤ start)
    (within : ∀ child ∈ nodes, start ≤ child.start ∧ child.stop ≤ stop)
    (inBack : ∀ child ∈ back, stop ≤ child.start) :
    (ofTree context tree).edits.render context.source.chars ⟨start, stop⟩ =
      .ok (weave context.source start stop
        (rewriteAll context [tree] nodes (rewriteAll context [tree] front []).2).1) := by
  have each : ∀ child ∈ front ++ (nodes ++ back), child.WellFormed context.source.chars :=
    fun child member => wellFormed.child (children ▸ member)
  simp only [List.mem_append] at each
  have ordered := wellFormed.placed.ordered
  rw [children, List.pairwise_append, List.pairwise_append] at ordered
  have counters : (rewriteAll context [tree] front []).2 =
      (exploreAll context [tree] front []).counters :=
    counters_rewriteAll (fun child member => counters_rewrite child (each child (.inl member)) _) _
  have entries : (ofTree context tree).edits.entries =
      (exploreAll context [tree] front []).edits ++
        ((exploreAll context [tree] nodes (rewriteAll context [tree] front []).2).edits ++
          (exploreAll context [tree] back (exploreAll context [tree] nodes
            (rewriteAll context [tree] front []).2).counters).edits) := by
    rw [entries_ofTree wellFormed, recorded_program isProgram, children, exploreAll_append,
      exploreAll_append, ← counters]
    rfl
  -- What is found in the children of one part stays on its side of both ends.
  have frontStops : ∀ edit ∈ (exploreAll context [tree] front []).edits,
      edit.key.start < edit.key.stop ∧ edit.key.stop ≤ start := by
    intro edit member
    obtain ⟨child, isFront, covered⟩ := exists_covered_exploreAll
      (fun child member => each child (.inl member)) _ member
    exact ⟨covered.covers, Nat.le_trans covered.within.2 (inFront child isFront)⟩
  have laid : Node.Laid context.source.chars stop start nodes :=
    .of_ordered atStart atStop forward (fun child member => (each child (.inr (.inl member))).placed)
      ordered.2.1.1 within
  have nodesStart : ∀ edit ∈ (exploreAll context [tree] nodes
      (rewriteAll context [tree] front []).2).edits, start ≤ edit.key.start := fun edit member =>
    (covered_exploreAll (fun child isNode => each child (.inr (.inl isNode))) laid _ edit
      member).within.1
  have backStarts : ∀ edit ∈ (exploreAll context [tree] back (exploreAll context [tree] nodes
      (rewriteAll context [tree] front []).2).counters).edits, stop ≤ edit.key.start := by
    intro edit member
    obtain ⟨child, isBack, covered⟩ := exists_covered_exploreAll
      (fun child member => each child (.inr (.inr member))) _ member
    exact Nat.le_trans (inBack child isBack) covered.within.1
  have earlier : ∀ edit ∈ (exploreAll context [tree] front []).edits, ∀ child ∈ nodes,
      edit.key.before child.key = true := by
    intro edit member child isNode
    have stops := frontStops edit member
    have starts := (within child isNode).1
    exact EditKey.before_iff.mpr (.inl (Nat.lt_of_lt_of_le stops.1 (Nat.le_trans stops.2 starts)))
  have size := congrArg List.length entries
  simp only [List.length_append] at size
  have written := traceFrom_exploreAll (fun child member => each child (.inr (.inl member)))
    (fun child member => (renders child (each child (.inr (.inl member)))).1) laid
    (⟨entries, by simp, earlier, backStarts⟩ : Amid _ nodes stop none _ _ _)
    (by omega : _ ≤ (ofTree context tree).edits.entries.length)
  rw [← map_text_trace, trace, Edits.size, traceUpTo_eq_ok_of_block entries ?_ nodesStart backStarts written]
  · rfl
  · intro edit member notBefore
    have stops := frontStops edit member
    exact absurd (Nat.lt_of_lt_of_le stops.1 stops.2) (Nat.not_lt_of_ge notBefore)

/-- A program can be written in two parts around a place before one of its children. -/
theorem render_divided {middle : Node} {before after : List Node} {place : Nat}
    (wellFormed : tree.WellFormed context.source.chars) (isProgram : tree.kind = .program)
    (children : tree.children = before ++ middle :: after)
    (atPlace : Boundary context.source.chars place) (inFront : ∀ child ∈ before, child.stop ≤ place)
    (behind : place ≤ middle.start) :
    let first := weave context.source 0 place (rewriteAll context [tree] before []).1
    let second := weave context.source place context.source.byteLength
      (rewriteAll context [tree] (middle :: after) (rewriteAll context [tree] before []).2).1
    (ofTree context tree).edits.render context.source.chars ⟨0, place⟩ = .ok first ∧
      (ofTree context tree).edits.render context.source.chars ⟨place, context.source.byteLength⟩ =
        .ok second ∧
      (ofTree context tree).edits.render context.source.chars context.source.whole =
        .ok (first ++ second) := by
  intro first second
  have each : ∀ child ∈ before ++ middle :: after, child.Placed context.source.chars :=
    fun child member => (wellFormed.child (children ▸ member)).placed
  have atEnd : Boundary context.source.chars context.source.byteLength := Text.boundary_byteLength _
  have ordered := wellFormed.placed.ordered
  rw [children, List.pairwise_append, List.pairwise_cons] at ordered
  have inBack : ∀ child ∈ middle :: after, place ≤ child.start := by
    intro child member
    rcases List.mem_cons.mp member with rfl | isAfter
    · exact behind
    · exact Nat.le_trans behind
        (Nat.le_trans (each middle (by simp)).forward (ordered.2.1.1 child isAfter))
  have firstWritten := @render_children context tree [] before (middle :: after) 0 place wellFormed
    isProgram children (Text.boundary_zero _) atPlace (Nat.zero_le _) (by simp)
    (fun child member => ⟨Nat.zero_le _, inFront child member⟩) inBack
  have secondWritten := @render_children context tree before (middle :: after) [] place
    context.source.byteLength wellFormed isProgram (by simpa using children) atPlace atEnd
    atPlace.le inFront
    (fun child member => ⟨inBack child member, (each child (List.mem_append_right _ member)).last.le⟩)
    (by simp)
  have written := @render_children context tree [] (before ++ middle :: after) [] 0
    context.source.byteLength wellFormed isProgram (by simpa using children) (Text.boundary_zero _)
    atEnd (Nat.zero_le _) (by simp)
    (fun child member => ⟨Nat.zero_le _, (each child member).last.le⟩) (by simp)
  have laidFront : Node.Laid context.source.chars place 0 before :=
    .of_ordered (Text.boundary_zero _) atPlace (Nat.zero_le _)
      (fun child member => each child (List.mem_append_left _ member)) ordered.1
      fun child member => ⟨Nat.zero_le _, inFront child member⟩
  have laidBack : Node.Laid context.source.chars context.source.byteLength place (middle :: after) :=
    .of_ordered atPlace atEnd atPlace.le
      (fun child member => each child (List.mem_append_right _ member))
      (List.pairwise_cons.mpr ordered.2.1)
      fun child member => ⟨inBack child member, (each child (List.mem_append_right _ member)).last.le⟩
  rw [← map_node_rewriteAll before []] at laidFront
  rw [← map_node_rewriteAll (middle :: after) (rewriteAll context [tree] before []).2] at laidBack
  refine ⟨firstWritten, secondWritten, ?_⟩
  rw [SourceText.whole, written, rewriteAll_append]
  exact congrArg Except.ok (Rewritten.weave_append laidFront laidBack)

end Parts

/-! ## Outputs -/

/-- The last statement is one of the children of the program. -/
theorem exists_children_of_last {tree last : Node}
    (isLast : tree.statements.getLast? = some last) :
    ∃ before after, tree.children = before ++ last :: after := by
  have isStatement := List.mem_of_getLast? isLast
  have isValue := (List.mem_filter.mp isStatement).1
  exact List.append_of_mem (Node.mem_children_of_mem_values isValue)

/-- A program can be written in two parts around the start of its last statement. -/
theorem exists_render_at_last {context : PassContext} {tree last : Node}
    (wellFormed : tree.WellFormed context.source.chars) (isProgram : tree.kind = .program)
    (isLast : tree.statements.getLast? = some last) :
    ∃ before after, tree.children = before ++ last :: after ∧
      (ofTree context tree).edits.render context.source.chars ⟨0, last.start⟩ =
        .ok (weave context.source 0 last.start (rewriteAll context [tree] before []).1) ∧
      (ofTree context tree).edits.render context.source.chars
          ⟨last.start, context.source.byteLength⟩ =
        .ok (weave context.source last.start context.source.byteLength
          (rewriteAll context [tree] (last :: after) (rewriteAll context [tree] before []).2).1) := by
  obtain ⟨before, after, children⟩ := exists_children_of_last isLast
  have lastPlaced := (wellFormed.child (children ▸ List.mem_append_right _ List.mem_cons_self)).placed
  have ordered := wellFormed.placed.ordered
  rw [children, List.pairwise_append] at ordered
  obtain ⟨firstWritten, secondWritten, _⟩ := render_divided wellFormed isProgram children
    lastPlaced.first (fun child member => ordered.2.2 child member last List.mem_cons_self)
    (Nat.le_refl _)
  exact ⟨before, after, children, firstWritten, secondWritten⟩

/-- A program with a statement is written as a whole if nothing is returned. -/
theorem transpileTree_of_render {source : SourceText} {tree last : Node} {options : Options}
    {registry : Registry} {text : List Char} (isLast : tree.statements.getLast? = some last)
    (written : (ofTree ⟨source, registry, options⟩ tree).edits.render source.chars source.whole =
      .ok text) :
    transpileTree source tree { options with addReturn := false, wrapAsync := false } registry =
      .ok ⟨String.ofList text,
        if options.emitLocations then
          some (ofTree ⟨source, registry, options⟩ tree).locations else none,
        if options.emitWidgets then
          some (ofTree ⟨source, registry, options⟩ tree).widgets else none⟩ := by
  simp only [transpileTree, ofTree_of_ending, Ending.text, Ending.body, isLast, Ending.write]
  rw [written]
  rfl

/-- The function around a program is put around its output, whatever that is. -/
theorem transpileTree_wrapped (source : SourceText) (tree : Node) (options : Options)
    (registry : Registry) (addReturn : Bool) :
    transpileTree source tree { options with addReturn := addReturn, wrapAsync := true } registry =
      (transpileTree source tree { options with addReturn := addReturn, wrapAsync := false }
        registry).map fun result =>
          { result with output := "(async () => \x7b\n" ++ result.output ++ "\n\x7d)()" } := by
  simp only [transpileTree, Ending.text, ofTree_of_ending]
  have same : Ending.body source tree (ofTree ⟨source, registry, options⟩ tree).edits
      { options with addReturn := addReturn, wrapAsync := true } =
      Ending.body source tree (ofTree ⟨source, registry, options⟩ tree).edits
        { options with addReturn := addReturn, wrapAsync := false } := rfl
  rw [same]
  cases Ending.body source tree (ofTree ⟨source, registry, options⟩ tree).edits
      { options with addReturn := addReturn, wrapAsync := false } with
  | error fault => rfl
  | ok body =>
      have text := Ending.ofList_wrapped body
      simp only [bind, Except.bind, pure, Except.pure, Except.map, if_true, Bool.false_eq_true,
        if_false, text]

/-- The text of a small program of two statements, the last of which has a label. -/
def labeledText : List Char := "\"y\";a:-1".toList

/-- Its tree. -/
def labeledTree : Node :=
  .mk .program none ⟨0, 8⟩ [
    .mk .expressionStatement none ⟨0, 4⟩ [.mk .string none ⟨0, 3⟩ []],
    .mk .labeledStatement none ⟨4, 8⟩ [.mk .statementIdentifier (some .label) ⟨4, 5⟩ [],
      .mk .expressionStatement (some .body) ⟨6, 8⟩ [
        .mk .unaryExpression none ⟨6, 8⟩ [.mk .number none ⟨7, 8⟩ []]]]]

/-- Returning the last statement of a program writes one word before it and changes nothing else: the
texts before and behind the word are those of the two parts of the program, without the word they make
up the output in which nothing is returned, and the reports are the same. The function around a
program is put around its output either way. -/
theorem return_inserts_one_word (source : SourceText) (tree last : Node) (options : Options)
    (registry : Registry) (wellFormed : tree.WellFormed source.chars)
    (isProgram : tree.kind = .program) (isLast : tree.statements.getLast? = some last)
    (returnable : Ending.isReturnable last = true) :
    let edits := (ofTree ⟨source, registry, options⟩ tree).edits
    (∃ before after locations widgets,
      edits.render source.chars ⟨0, last.start⟩ = .ok before ∧
      edits.render source.chars ⟨last.start, source.byteLength⟩ = .ok after ∧
      transpileTree source tree { options with addReturn := false, wrapAsync := false } registry =
        .ok ⟨String.ofList (before ++ after), locations, widgets⟩ ∧
      transpileTree source tree { options with addReturn := true, wrapAsync := false } registry =
        .ok ⟨String.ofList (before ++ "return ".toList ++ after), locations, widgets⟩) ∧
    ∀ addReturn,
      transpileTree source tree { options with addReturn := addReturn, wrapAsync := true } registry =
        (transpileTree source tree { options with addReturn := addReturn, wrapAsync := false }
          registry).map fun result =>
            { result with output := "(async () => \x7b\n" ++ result.output ++ "\n\x7d)()" } := by
  intro edits
  refine ⟨?_, transpileTree_wrapped source tree options registry⟩
  obtain ⟨before, after, children⟩ := exists_children_of_last isLast
  have lastPlaced := (wellFormed.child (children ▸ List.mem_append_right _ List.mem_cons_self)).placed
  have ordered := wellFormed.placed.ordered
  rw [children, List.pairwise_append] at ordered
  obtain ⟨firstWritten, secondWritten, written⟩ :=
    @render_divided ⟨source, registry, options⟩ tree last before after last.start wellFormed isProgram
      children lastPlaced.first (fun child member => ordered.2.2 child member last List.mem_cons_self)
      (Nat.le_refl _)
  refine ⟨_, _, _, _, firstWritten, secondWritten, transpileTree_of_render isLast written, ?_⟩
  · simp only [transpileTree, ofTree_of_ending, Ending.text, Ending.body, isLast, Ending.write,
      Ending.requireReturnable, returnable]
    rw [firstWritten, secondWritten]
    rfl

/-- The word stands before the parentheses that take the place of a label. -/
theorem return_inserts_one_word_labeled :
    labeledTree.WellFormed labeledText ∧
      (transpileTree (.ofChars labeledText) labeledTree {} {}).toOption.map Transpiled.output =
        some "m(\"y\", 0);return (-1).p(\"a\")" ∧
      ∃ before after locations widgets,
        transpileTree (.ofChars labeledText) labeledTree { addReturn := false } {} =
          .ok ⟨String.ofList (before ++ after), locations, widgets⟩ ∧
        transpileTree (.ofChars labeledText) labeledTree {} {} =
          .ok ⟨String.ofList (before ++ "return ".toList ++ after), locations, widgets⟩ := by
  have wellFormed : labeledTree.WellFormed labeledText := by decide +kernel
  obtain ⟨⟨before, after, locations, widgets, _, _, without, inserted⟩, _⟩ :=
    return_inserts_one_word (.ofChars labeledText) labeledTree _ {} {} wellFormed rfl rfl rfl
  exact ⟨wellFormed, by decide +kernel, before, after, locations, widgets, without, inserted⟩

end Pass

end PatternScript
