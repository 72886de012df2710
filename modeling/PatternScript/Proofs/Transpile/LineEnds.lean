import PatternScript.Proofs.Script.Programs
import PatternScript.Proofs.Transpile.Returning

/-!
Contract: line ends that stop to end a statement.

A line end may stand for a semicolon unless the next token continues the statement. A label never
does, but the parenthesis that takes its place does. So the statement before a labelled expression
that needs parentheses cannot end at the line end in the output, and swallows what was a statement of
its own.

Owns: the text behind a line end that a label follows, before and after transpiling, and a program that
loses a statement.
Does not own: where the other statements of a program end.
-/

namespace PatternScript

open Script Rewritten
open Text (Boundary)

/-! ## Reading behind a line end -/

namespace Script.Reader

variable {input : Input} {commentEnds : Bool} {rest : List Char}

theorem semicolon_parenthesis_fails (split : input.rest = '\n' :: '(' :: rest) :
    semicolon commentEnds input = none := by
  have continues : continuesStatement ('(' :: rest) = true := rfl
  refine @semicolon_kept_fails _ _ ['\n'] ('(' :: rest) ?_ split rfl rfl (by simp)
  rw [split, omitsSemicolon_line rfl (by decide), continues]
  rfl

/-- A statement can end at the end of a line that a name follows, as long as the name cannot be taken
for an operator. -/
theorem semicolon_name {c : Char} (starts : isNameStart c = true) (other : c ≠ 'i')
    (split : input.rest = '\n' :: c :: rest) :
    semicolon commentEnds input = some ((), { input with stop := input.offset }) := by
  have notMark : ∀ mark ∈ ".+-!`,:;*%><=[(?^|&/".toList, c ≠ mark := by
    have closed : ∀ mark ∈ ".+-!`,:;*%><=[(?^|&/".toList, isNameStart mark = false :=
      forall_mem_of_all (by decide)
    rintro mark member rfl
    rw [closed c member] at starts
    cases starts
  have unlisted : "`,:;*%><=[(?^|&/".toList.contains c = false := by
    rw [Bool.eq_false_iff]
    intro listed
    exact notMark c (List.mem_append_right ".+-!".toList (List.contains_iff_mem.mp listed)) rfl
  have noRelation : startsRelation (c :: rest) = false := by
    unfold startsRelation
    split
    case h_1 => simp_all
    case h_2 => rfl
  have ends : continuesStatement (c :: rest) = false := by
    unfold continuesStatement
    split
    all_goals simp_all
  obtain ⟨_, notBlank, _⟩ := @of_opensStatement c (by simp [opensStatement, starts])
  refine semicolon_omitted ?_
  rw [split, omitsSemicolon_line notBlank (notMark '/' (by decide)), ends]
  rfl

end Script.Reader

/-! ## What takes the place of a label -/

namespace Pass

variable {context : PassContext} {ancestors : List Node} {node expression : Node} {name : String}

/-- A labelled expression that needs parentheses starts with one. -/
theorem exists_text_labeled (wellFormed : node.WellFormed context.source.chars)
    (selected : Rule.select? context.registry (Shape.of context.source ancestors.head? node) =
      some (.label name expression))
    (compound : expression.kind.isMemberSafe = false) (counters : WidgetCounters) :
    ∃ rest, (rewrite context ancestors node counters).1.text = '(' :: rest := by
  cases Rule.matches_of_select? selected with
  | @label label _ _ kind labelPart bodyPart isExpression firstValue =>
      obtain ⟨front, behind, children, extras, isValue, _⟩ :=
        @exploreAll_labeled context (node :: ancestors) _ _ _ wellFormed kind bodyPart isExpression
          firstValue counters
      have manner : Manner.of context ancestors node counters =
          (.build (Rewriting.labeled context.source node.stop (context.source.text label.range)),
            counters) := by
        simp only [Manner.of, selected]
      rw [rewrite_of_build manner]
      simp only [Rewritten.text]
      rw [labeled_rewriteAll wellFormed kind bodyPart isExpression children extras isValue, compound]
      exact ⟨_, rfl⟩

theorem exists_last_of_child {tree : Node} (member : node ∈ tree.children)
    (isValue : node.kind.isExtra = false) (isStatement : node.kind ≠ .hashBangLine) :
    ∃ last, tree.statements.getLast? = some last := by
  have among : node ∈ tree.statements := by
    simp [Node.statements, Node.values, member, isValue, isStatement]
  cases found : tree.statements.getLast? with
  | some last => exact ⟨last, rfl⟩
  | none =>
      rw [List.getLast?_eq_none_iff.mp found] at among
      cases among

/-- A program of two lines, the second of which has a label. -/
def linesText : List Char := "a\nb: -c".toList

/-- Its second line. -/
def linesLabel : Node :=
  .mk .labeledStatement none ⟨2, 7⟩ [.mk .statementIdentifier (some .label) ⟨2, 3⟩ [],
    .mk .expressionStatement (some .body) ⟨5, 7⟩ [
      .mk .unaryExpression none ⟨5, 7⟩ [.mk .identifier none ⟨6, 7⟩ []]]]

/-- Its tree. -/
def linesTree : Node :=
  .mk .program none ⟨0, 7⟩ [
    .mk .expressionStatement none ⟨0, 1⟩ [.mk .identifier none ⟨0, 1⟩ []], linesLabel]

/-- Where a line ends before a labelled expression that needs parentheses, the statement before it can
end in the program, but not in the output. -/
theorem label_undoes_line_end (source : SourceText) (tree node expression : Node) (name : String)
    (before after : List Node) (line : Nat) (c : Char) (more : List Char) (options : Options)
    (registry : Registry) (wellFormed : tree.WellFormed source.chars)
    (isProgram : tree.kind = .program) (children : tree.children = before ++ node :: after)
    (above : ∀ child ∈ before, child.stop ≤ line)
    (newline : source.slice ⟨line, node.start⟩ = ['\n'])
    (spelled : source.slice ⟨node.start, source.byteLength⟩ = c :: more)
    (starts : isNameStart c = true) (other : c ≠ 'i')
    (selected : Rule.select? registry (Shape.of source (some tree) node) =
      some (.label name expression))
    (compound : expression.kind.isMemberSafe = false) :
    let edits := (ofTree ⟨source, registry, options⟩ tree).edits
    ∃ first second locations widgets,
      edits.render source.chars ⟨0, line⟩ = .ok first ∧
      edits.render source.chars ⟨line, source.byteLength⟩ = .ok second ∧
      transpileTree source tree { options with addReturn := false, wrapAsync := false } registry =
        .ok ⟨String.ofList (first ++ second), locations, widgets⟩ ∧
      ∀ commentEnds (input : Input),
        (input.rest = source.slice ⟨line, source.byteLength⟩ →
          Reader.semicolon commentEnds input = some ((), { input with stop := input.offset })) ∧
        (input.rest = second → Reader.semicolon commentEnds input = none) := by
  intro edits
  have isChild : node ∈ tree.children := children ▸ List.mem_append_right before List.mem_cons_self
  have nodeWellFormed := wellFormed.child isChild
  have isLabeled : node.kind = .labeledStatement := by
    cases Rule.matches_of_select? selected with
    | label kind _ _ _ _ => exact kind
  obtain ⟨atLine, atNode, forward⟩ : Boundary source.chars line ∧ Boundary source.chars node.start ∧
      line ≤ node.start := by
    cases found : Text.slice? source.chars ⟨line, node.start⟩ with
    | some part => exact Text.boundaries_of_slice? found
    | none => simp [SourceText.slice, Text.slice, found] at newline
  have sourceText : source.slice ⟨line, source.byteLength⟩ = '\n' :: c :: more := calc
    source.slice ⟨line, source.byteLength⟩
      = source.slice ⟨line, node.start⟩ ++ source.slice ⟨node.start, source.byteLength⟩ :=
        (Text.slice_append_slice atLine atNode (Text.boundary_byteLength _) forward atNode.le).symm
    _ = '\n' :: c :: more := by rw [newline, spelled]; rfl
  obtain ⟨last, isLast⟩ := exists_last_of_child isChild (by rw [isLabeled]; rfl) (by simp [isLabeled])
  obtain ⟨firstWritten, secondWritten, written⟩ :=
    @render_divided ⟨source, registry, options⟩ tree node before after line wellFormed isProgram
      children atLine above forward
  obtain ⟨rest, opened⟩ := @exists_text_labeled ⟨source, registry, options⟩ [tree] node expression name
    nodeWellFormed selected compound (rewriteAll ⟨source, registry, options⟩ [tree] before []).2
  refine ⟨_, _, _, _, firstWritten, secondWritten, transpileTree_of_render isLast written,
    fun commentEnds input => ⟨fun split => ?_, fun split => ?_⟩⟩
  · exact Reader.semicolon_name starts other (split.trans sourceText)
  · rw [rewriteAll_cons, weave, node_rewrite, opened, newline] at split
    exact Reader.semicolon_parenthesis_fails split

theorem label_undoes_line_end_lines :
    linesTree.WellFormed linesText ∧
      ∃ first second locations widgets,
        transpileTree (.ofChars linesText) linesTree { addReturn := false } {} =
          .ok ⟨String.ofList (first ++ second), locations, widgets⟩ ∧
        ∀ commentEnds (input : Input),
          (input.rest = "\nb: -c".toList →
            Reader.semicolon commentEnds input = some ((), { input with stop := input.offset })) ∧
          (input.rest = second → Reader.semicolon commentEnds input = none) := by
  have wellFormed : linesTree.WellFormed linesText := by decide +kernel
  obtain ⟨first, second, locations, widgets, _, _, transpiled, ends⟩ :=
    label_undoes_line_end (.ofChars linesText) linesTree linesLabel
      (.mk .unaryExpression none ⟨5, 7⟩ [.mk .identifier none ⟨6, 7⟩ []]) "b"
      [.mk .expressionStatement none ⟨0, 1⟩ [.mk .identifier none ⟨0, 1⟩ []]] [] 1 'b' ": -c".toList
      { addReturn := false } {} wellFormed rfl rfl (by simp [Node.stop, Node.range])
      (by decide +kernel) (by decide +kernel) (by decide) (by decide) rfl rfl
  exact ⟨wellFormed, first, second, locations, widgets, transpiled, ends⟩

/-- The program loses a statement: its second line becomes the arguments of a call of the first. -/
theorem statements_joined :
    ∃ result, transpile "a\nb: -c" { addReturn := false } .empty = .ok result ∧
      result.output = "a\n(-c).p(\"b\")" ∧
      (parse "a\nb: -c".toList).statements.length = 2 ∧
      (parse result.output.toList).hasFault = false ∧
      (parse result.output.toList).statements.length = 1 := by
  obtain ⟨children, parsed, found⟩ := @exists_parse_of_leading linesText
    (fun children =>
      let tree := Node.mk .program none ⟨0, 7⟩ children
      tree.statements.length == 2 && !tree.hasFault &&
        (transpileTree (.ofChars linesText) tree { addReturn := false } .empty).toOption.map
          Transpiled.output == some "a\n(-c).p(\"b\")") (by decide +kernel)
  obtain ⟨joined, parsedOutput, foundOutput⟩ := @exists_parse_of_leading "a\n(-c).p(\"b\")".toList
    (fun children =>
      let tree := Node.mk .program none ⟨0, 13⟩ children
      tree.statements.length == 1 && !tree.hasFault) (by decide +kernel)
  simp only [Bool.and_eq_true, Bool.not_eq_true', beq_iff_eq] at found foundOutput
  obtain ⟨⟨two, faultless⟩, written⟩ := found
  have transpiled : transpile "a\nb: -c" { addReturn := false } .empty =
      transpileTree (.ofChars linesText) (.mk .program none ⟨0, 7⟩ children)
        { addReturn := false } .empty :=
    transpile_of_parse parsed faultless { addReturn := false } .empty
  rw [transpiled]
  cases answered : transpileTree (.ofChars linesText) (.mk .program none ⟨0, 7⟩ children)
      { addReturn := false } .empty with
  | error fault =>
      rw [answered] at written
      cases written
  | ok result =>
      rw [answered] at written
      have output : result.output = "a\n(-c).p(\"b\")" := Option.some.inj written
      refine ⟨result, rfl, output, ?_, ?_, ?_⟩
      · exact (congrArg (fun tree => tree.statements.length) parsed).trans two
      · rw [output, parsedOutput]
        exact foundOutput.2
      · rw [output, parsedOutput]
        exact foundOutput.1

end Pass

end PatternScript
