import PatternScript.Proofs.Transpile.Rendering
import PatternScript.Transpile

/-!
Contract: what the replacements of a whole program come to.

The keys of the replacements are recorded in their order, so that none takes the place of another.
Rendering the program makes each of them once, and the result is the program that the rewriter
builds.

Owns: the text of a spliced program, and the fate of each of its replacements.
Does not own: the end of a program.
-/

namespace PatternScript

open Script Edits
open Text (Boundary)

namespace Pass

/-- The replacements that a walk over a tree records, in the order in which it records them. -/
def recorded (context : PassContext) (tree : Node) : List Edit :=
  (explore context [] tree []).edits

/-- No rule applies to a whole program, so its replacements are those of its children. -/
theorem recorded_program {context : PassContext} {tree : Node} (isProgram : tree.kind = .program) :
    recorded context tree = (exploreAll context [tree] tree.children []).edits := by
  have noRule : Rule.select? context.registry (Shape.of context.source none tree) = none := by
    apply Rule.select?_eq_none_of_kind <;> simp [isProgram]
  rw [recorded, explore_of_no_rule noRule]

/-- Keys recorded in their order all stay, in that order. -/
theorem insertAll_eq_append {edits entries : List Edit}
    (ordered : (entries ++ edits).Pairwise fun earlier later =>
      earlier.key.before later.key = true) :
    insertAll edits entries = entries ++ edits := by
  induction edits generalizing entries with
  | nil => simp [insertAll]
  | cons edit rest inductionHypothesis =>
      have last : ∀ other ∈ entries, other.key.before edit.key = true := fun other member =>
        (List.pairwise_append.mp ordered).2.2 other member edit List.mem_cons_self
      have onward := @inductionHypothesis (entries ++ [edit]) (by simpa using ordered)
      rw [List.append_assoc, List.singleton_append] at onward
      rw [← onward, ← Edits.insert_eq_append last]
      rfl

section Program

variable {context : PassContext} {tree : Node}

theorem entries_ofTree (wellFormed : tree.WellFormed context.source.chars) :
    (ofTree context tree).edits.entries = recorded context tree := by
  rw [ofTree_eq_absorb]
  refine insertAll_eq_append ?_
  exact (pairwise_explore tree wellFormed [] []).imp fun inTurn => inTurn.1

/-- Rendering a program makes the recorded replacements, and its text is the rewritten one. -/
theorem trace_ofTree (wellFormed : tree.WellFormed context.source.chars) :
    (ofTree context tree).edits.trace context.source.chars context.source.whole =
      .ok ⟨context.source.slice ⟨0, tree.start⟩ ++ (rewrite context [] tree []).1.text ++
        context.source.slice ⟨tree.stop, context.source.byteLength⟩,
        recorded context tree⟩ := by
  have laid : Node.Laid context.source.chars context.source.byteLength 0 [tree] :=
    .of_ordered (Text.boundary_zero _) (Text.boundary_byteLength _) (Nat.zero_le _)
      (by simpa using wellFormed.placed) (by simp)
      (by simpa [SourceText.byteLength] using wellFormed.placed.last.le)
  have entries : (ofTree context tree).edits.entries =
      [] ++ ((exploreAll context [] [tree] []).edits ++ []) := by
    rw [entries_ofTree wellFormed, exploreAll_singleton]
    simp [recorded]
  have written := traceFrom_exploreAll (by simpa using wellFormed)
    (by simpa using (renders tree wellFormed).1) laid
    (⟨entries, by simp, by simp, by simp⟩ : Amid _ [tree] _ none [] _ []) (Nat.le_refl _)
  have size : (ofTree context tree).edits.size =
      (exploreAll context [] [tree] []).edits.length := by
    rw [Edits.size, entries]
    simp
  rw [trace, size, traceUpTo_eq_ok_of_block entries (by simp)
    (fun _ _ => Nat.zero_le _) (by simp) written]
  simp [rewriteAll, Rewritten.weave, node_rewrite, exploreAll_singleton, recorded]

/-- A recorded replacement lies inside exactly one source part of each one that it is nested in. -/
theorem countP_sources_of_nested (wellFormed : tree.WellFormed context.source.chars)
    {outer inner : Edit} (isOuter : outer ∈ recorded context tree)
    (isInner : inner ∈ recorded context tree) (within : inner.range.Within outer.range)
    (different : inner.key ≠ outer.key) :
    outer.emission.sources.countP (fun range => decide (inner.range.Within range)) = 1 := by
  have covers := (covered_explore tree wellFormed [] [] inner isInner).1.covers
  have either : InTurn outer inner ∨ InTurn inner outer := by
    have inTurn := pairwise_explore tree wellFormed [] []
    obtain ⟨place, isPlace, atPlace⟩ := List.mem_iff_getElem.mp isOuter
    obtain ⟨other, isOther, atOther⟩ := List.mem_iff_getElem.mp isInner
    rw [List.pairwise_iff_getElem] at inTurn
    rcases Nat.lt_trichotomy place other with earlier | same | later
    · exact .inl (atPlace ▸ atOther ▸ inTurn place other isPlace isOther earlier)
    · subst same
      exact absurd (atOther.symm.trans atPlace) fun same => different (congrArg Edit.key same)
    · exact .inr (atPlace ▸ atOther ▸ inTurn other place isOther isPlace later)
  simp only [ByteRange.Within, Edit.range] at within
  rcases either with ⟨_, apart | ⟨_, _, once⟩⟩ | ⟨ordered, _⟩
  · omega
  · exact once
  · -- The inner one cannot come first in the order.
    rw [EditKey.before_iff] at ordered
    omega

end Program

/-! ## Whole programs -/

/-- The text of a small program with four replacements: a label, a widget method and two literals,
one in the function of the method and one among its arguments. -/
def chainedText : List Char := "a:f(\"x\").w(\"y\")".toList

/-- Its tree. -/
def chainedTree : Node :=
  .mk .program none ⟨0, 15⟩ [.mk .labeledStatement none ⟨0, 15⟩ [
    .mk .statementIdentifier (some .label) ⟨0, 1⟩ [],
    .mk .expressionStatement (some .body) ⟨2, 15⟩ [.mk .callExpression none ⟨2, 15⟩ [
      .mk .memberExpression (some .function) ⟨2, 10⟩ [
        .mk .callExpression none ⟨2, 8⟩ [.mk .identifier (some .function) ⟨2, 3⟩ [],
          .mk .arguments (some .arguments) ⟨3, 8⟩ [.mk .string none ⟨4, 7⟩ []]],
        .mk .propertyIdentifier (some .property) ⟨9, 10⟩ []],
      .mk .arguments (some .arguments) ⟨10, 15⟩ [.mk .string none ⟨11, 14⟩ []]]]]]

/-- Rendering the replacements of a well-formed tree gives the text of the rewritten tree, between
the text before and behind the tree. If the program has a statement and nothing is put around it,
this is its output. -/
theorem render_ofTree (source : SourceText) (tree : Node) (options : Options) (registry : Registry)
    (wellFormed : tree.WellFormed source.chars) :
    let context : PassContext := ⟨source, registry, options⟩
    let text := source.slice ⟨0, tree.start⟩ ++ (rewrite context [] tree []).1.text ++
      source.slice ⟨tree.stop, source.byteLength⟩
    (ofTree context tree).edits.render source.chars source.whole = .ok text ∧
      (tree.statements ≠ [] → options.addReturn = false → options.wrapAsync = false →
        (transpileTree source tree options registry).map Transpiled.output =
          .ok (String.ofList text)) := by
  intro context text
  have rendered : (ofTree context tree).edits.render source.chars source.whole = .ok text := by
    rw [← map_text_trace]
    exact congrArg (Except.map Traced.text) (trace_ofTree wellFormed)
  refine ⟨rendered, fun given noReturn noWrapping => ?_⟩
  have last : tree.statements.getLast? = some (tree.statements.getLast given) :=
    List.getLast?_eq_some_getLast given
  have output : Ending.text source tree (ofTree context tree).edits options = .ok text := by
    simp [Ending.text, Ending.body, last, noReturn, noWrapping, Ending.write, rendered, bind,
      Except.bind, pure, Except.pure]
  simp only [transpileTree]
  rw [output]
  rfl

/-- Four replacements, one inside the other or beside it, in one program. -/
theorem render_ofTree_chained :
    chainedTree.WellFormed chainedText ∧
      (ofTree ⟨.ofChars chainedText, { methods := ["w"] }, {}⟩ chainedTree).edits.render chainedText
          ⟨0, 15⟩ =
        .ok "f(m(\"x\", 4)).w('_widget_w_0', m(\"y\", 11)).p(\"a\")".toList := by
  have wellFormed : chainedTree.WellFormed chainedText := by decide +kernel
  refine ⟨wellFormed, ?_⟩
  have rendered :=
    (render_ofTree (.ofChars chainedText) chainedTree {} { methods := ["w"] } wellFormed).1
  have text : (SourceText.ofChars chainedText).slice ⟨0, chainedTree.start⟩ ++
      (rewrite ⟨.ofChars chainedText, { methods := ["w"] }, {}⟩ [] chainedTree []).1.text ++
      (SourceText.ofChars chainedText).slice ⟨chainedTree.stop, 15⟩ =
      "f(m(\"x\", 4)).w('_widget_w_0', m(\"y\", 11)).p(\"a\")".toList := by
    decide +kernel
  rw [← text]
  exact rendered

/-- On a well-formed tree no replacement is lost, takes the place of another one or is made twice:
they are recorded in the strict order of their keys, so that all of them stay; two of them lie apart
or one is strictly nested in the other; each holds its source parts; a nested one lies inside exactly
one source part of the one around it; and rendering the program makes each of them once. -/
theorem recorded_made_once (source : SourceText) (tree : Node) (options : Options)
    (registry : Registry) (wellFormed : tree.WellFormed source.chars) :
    let context : PassContext := ⟨source, registry, options⟩
    let edits := (ofTree context tree).edits
    (recorded context tree).Pairwise (fun earlier later => earlier.key.before later.key = true) ∧
      edits.entries = insertAll (recorded context tree) [] ∧
      edits.entries = recorded context tree ∧
      (recorded context tree).Pairwise (fun earlier later =>
        earlier.key.stop ≤ later.key.start ∨
          (later.range.Within earlier.range ∧ later.key ≠ earlier.key)) ∧
      (∀ edit ∈ recorded context tree, edit.HoldsSources) ∧
      (∀ outer ∈ recorded context tree, ∀ inner ∈ recorded context tree,
        inner.range.Within outer.range → inner.key ≠ outer.key →
          outer.emission.sources.countP (fun range => decide (inner.range.Within range)) = 1) ∧
      ∃ traced, edits.trace source.chars source.whole = .ok traced ∧
        edits.render source.chars source.whole = .ok traced.text ∧
        traced.applied = recorded context tree := by
  intro context edits
  have inTurn := @pairwise_explore context tree wellFormed [] []
  have traced := @trace_ofTree context tree wellFormed
  have inserted : edits.entries = insertAll (recorded context tree) [] := by
    simp only [edits, ofTree_eq_absorb]
    rfl
  refine ⟨inTurn.imp fun turn => turn.1, inserted, entries_ofTree wellFormed,
    inTurn.imp fun turn => turn.2.imp_right fun nested => ⟨nested.1, nested.2.1⟩,
    fun edit member => (covered_explore tree wellFormed [] [] edit member).2,
    fun outer isOuter inner isInner within different =>
      countP_sources_of_nested wellFormed isOuter isInner within different,
    _, traced, ?_, rfl⟩
  rw [← map_text_trace]
  exact congrArg (Except.map Traced.text) traced

/-- The four replacements of the small program: the label around the method, the method around a
literal in its function and one among its arguments. -/
theorem recorded_made_once_chained :
    chainedTree.WellFormed chainedText ∧
      ((recorded ⟨.ofChars chainedText, { methods := ["w"] }, {}⟩ chainedTree).map Edit.key =
        [⟨0, 15⟩, ⟨2, 15⟩, ⟨4, 7⟩, ⟨11, 14⟩]) ∧
      (ofTree ⟨.ofChars chainedText, { methods := ["w"] }, {}⟩ chainedTree).edits.entries =
        recorded ⟨.ofChars chainedText, { methods := ["w"] }, {}⟩ chainedTree := by
  have wellFormed : chainedTree.WellFormed chainedText := by decide +kernel
  have kept := recorded_made_once (.ofChars chainedText) chainedTree {} { methods := ["w"] }
    wellFormed
  exact ⟨wellFormed, by decide +kernel, kept.2.2.1⟩

end Pass

end PatternScript
