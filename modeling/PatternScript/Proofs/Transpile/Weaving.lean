import PatternScript.Proofs.Transpile.Nesting

/-!
Contract: the texts that rewritten nodes are woven into.

Text before the first and behind the last of some nodes can be split off what is woven, and nodes
that keep their text leave the program as it was. Below a call and below a labelled statement the
rewriter finds its parts where the tree has them.

Owns: these laws of weaving, and the parts of rewritten calls and labelled statements.
Does not own: which text is written.
-/

namespace PatternScript

open Script Rewriting Rewritten
open Text (Boundary)

namespace Rewritten

/-- A node that keeps its text. -/
def unchanged (source : SourceText) (node : Node) : Rewritten :=
  .mk node (source.slice node.range) []

section Weave

variable {source : SourceText} {start middle stop : Nat} {parts : List Rewritten}

/-- Text before the nodes can be split off. -/
theorem weave_eq_slice_append (first : Boundary source.chars start) (before : start ≤ middle)
    (laid : Node.Laid source.chars stop middle (parts.map node)) :
    weave source start stop parts =
      source.slice ⟨start, middle⟩ ++ weave source middle stop parts := by
  cases parts with
  | nil => exact (Text.slice_append_slice first laid.first laid.last before laid.le).symm
  | cons part rest =>
      cases laid with
      | cons atMiddle behind atNode _ _ =>
          simp only [weave, SourceText.slice]
          rw [← Text.slice_append_slice first atMiddle atNode before behind]
          simp

/-- Text behind the nodes can be split off. -/
theorem weave_eq_append_slice (last : Boundary source.chars stop) (behind : middle ≤ stop)
    (laid : Node.Laid source.chars middle start (parts.map node)) :
    weave source start stop parts =
      weave source start middle parts ++ source.slice ⟨middle, stop⟩ := by
  induction parts generalizing start with
  | nil => exact (Text.slice_append_slice laid.first laid.last last laid.le behind).symm
  | cons part rest inductionHypothesis =>
      cases laid with
      | cons _ _ _ _ more => simp only [weave, inductionHypothesis more, List.append_assoc]

/-- Nodes that keep their text leave the text as it was. -/
theorem weave_unchanged {nodes : List Node} (laid : Node.Laid source.chars stop start nodes) :
    weave source start stop (nodes.map (unchanged source)) = source.slice ⟨start, stop⟩ := by
  induction nodes generalizing start with
  | nil => rfl
  | cons node rest inductionHypothesis =>
      cases laid with
      | cons first behind atNode forward more =>
          rw [List.map_cons, weave]
          change _ ++ _ ++ weave source node.stop stop _ = _
          rw [inductionHypothesis more]
          have joined := Text.slice_append_slice first atNode more.first behind forward
          have whole := Text.slice_append_slice first more.first more.last
            (Nat.le_trans behind forward) more.le
          simp only [SourceText.slice]
          rw [← whole, ← joined]
          rfl

/-- Delimiters of one byte around the nodes can be cut off what is woven. -/
theorem betweenParentheses_weave {outer : Node} {opening closing : Char}
    (delimited : outer.Delimited source.chars opening closing) (placed : outer.Placed source.chars)
    (openingSize : opening.utf8Size = 1) (closingSize : closing.utf8Size = 1)
    (laid : Node.Laid source.chars (outer.stop - 1) (outer.start + 1) (parts.map node)) :
    betweenParentheses (weave source outer.start outer.stop parts) =
      weave source (outer.start + 1) (outer.stop - 1) parts := by
  obtain ⟨_, _, _, first, last, long⟩ :=
    delimited.exists_slice_inner placed openingSize closingSize
  obtain ⟨opens, closes⟩ := delimited.slice_ends placed openingSize closingSize
  have outside : weave source (outer.start + 1) outer.stop parts =
      weave source (outer.start + 1) (outer.stop - 1) parts ++ [closing] := by
    rw [weave_eq_append_slice placed.last (Nat.sub_le _ 1) laid, SourceText.slice, closes]
  have laidOutside : Node.Laid source.chars outer.stop (outer.start + 1) (parts.map node) :=
    laid.widen placed.last (Nat.sub_le _ 1)
  rw [weave_eq_slice_append placed.first (Nat.le_succ _) laidOutside, outside, SourceText.slice,
    opens]
  simp [betweenParentheses]

end Weave

end Rewritten

/-! ## Rewritten children -/

section Children

variable {context : PassContext} {ancestors : List Node}

theorem node_rewrite (node : Node) (counters : WidgetCounters) :
    (rewrite context ancestors node counters).1.node = node := by
  obtain ⟨kind, role, range, children⟩ := node
  rw [rewrite]
  split <;> rfl

theorem map_node_rewriteAll (nodes : List Node) (counters : WidgetCounters) :
    (rewriteAll context ancestors nodes counters).1.map Rewritten.node = nodes := by
  induction nodes generalizing counters with
  | nil => rfl
  | cons node rest inductionHypothesis => simp [rewriteAll, node_rewrite, inductionHypothesis]

theorem rewriteAll_cons (node : Node) (rest : List Node) (counters : WidgetCounters) :
    rewriteAll context ancestors (node :: rest) counters =
      ((rewrite context ancestors node counters).1 ::
        (rewriteAll context ancestors rest (rewrite context ancestors node counters).2).1,
        (rewriteAll context ancestors rest (rewrite context ancestors node counters).2).2) := by
  rw [rewriteAll]

theorem rewriteAll_append (left right : List Node) (counters : WidgetCounters) :
    rewriteAll context ancestors (left ++ right) counters =
      ((rewriteAll context ancestors left counters).1 ++
        (rewriteAll context ancestors right (rewriteAll context ancestors left counters).2).1,
        (rewriteAll context ancestors right (rewriteAll context ancestors left counters).2).2) := by
  induction left generalizing counters with
  | nil => rfl
  | cons node rest inductionHypothesis => simp [rewriteAll, inductionHypothesis]

/-- A node without a rule keeps its text around its children. -/
theorem rewrite_of_no_rule {node : Node}
    (noRule : Rule.select? context.registry
      (Shape.of context.source ancestors.head? node) = none) (counters : WidgetCounters) :
    rewrite context ancestors node counters =
      (let below := rewriteAll context (node :: ancestors) node.children counters
      (.mk node (Rewritten.weave context.source node.start node.stop below.1) below.1,
        below.2)) := by
  obtain ⟨kind, role, range, children⟩ := node
  simp [rewrite, Manner.of, noRule, Node.children]

/-- Between the parentheses of rewritten arguments the arguments are woven. -/
theorem between_rewrite_arguments {arguments : Node} {counters : WidgetCounters}
    (wellFormed : arguments.WellFormed context.source.chars) (kind : arguments.kind = .arguments) :
    betweenParentheses (rewrite context ancestors arguments counters).1.text =
      weave context.source (arguments.start + 1) (arguments.stop - 1)
        (rewriteAll context (arguments :: ancestors) arguments.children counters).1 := by
  have delimited := wellFormed.placed.arguments kind
  rw [rewrite_of_no_rule (Pass.select?_arguments kind)]
  apply betweenParentheses_weave delimited wellFormed.placed rfl rfl
  rw [map_node_rewriteAll]
  exact wellFormed.laid_between delimited rfl rfl

/-- Leaves without a rule keep their text. -/
theorem rewriteAll_leaves {nodes : List Node}
    (noRule : ∀ node ∈ nodes, Rule.select? context.registry
      (Shape.of context.source ancestors.head? node) = none)
    (leaf : ∀ node ∈ nodes, node.children = []) (counters : WidgetCounters) :
    rewriteAll context ancestors nodes counters =
      (nodes.map (unchanged context.source), counters) := by
  induction nodes with
  | nil => rfl
  | cons node rest inductionHypothesis =>
      rw [List.forall_mem_cons] at noRule leaf
      rw [rewriteAll, rewrite_of_no_rule noRule.1, leaf.1]
      simp only [rewriteAll, Rewritten.weave, inductionHypothesis noRule.2 leaf.2, List.map_cons]
      rfl

/-- Comments keep their text. -/
theorem rewriteAll_extras {nodes : List Node}
    (extras : ∀ node ∈ nodes, node.kind.isExtra = true ∧ node.children = [])
    (counters : WidgetCounters) :
    rewriteAll context ancestors nodes counters =
      (nodes.map (unchanged context.source), counters) :=
  rewriteAll_leaves (fun node member => Pass.select?_extra (extras node member).1)
    (fun node member => (extras node member).2) counters

/-- Below a node with two values the other children keep their texts. -/
theorem rewriteAll_twoValues {node first second : Node} {before between after : List Node}
    (wellFormed : node.WellFormed context.source.chars)
    (two : node.TwoValues first second before between after) (counters : WidgetCounters) :
    (rewriteAll context ancestors node.children counters).1 =
      before.map (unchanged context.source) ++
        (rewrite context ancestors first counters).1 ::
          (between.map (unchanged context.source) ++
            (rewrite context ancestors second
              (rewrite context ancestors first counters).2).1 ::
              after.map (unchanged context.source)) := by
  have leaves := fun child member => (two.leaf wellFormed child member).1
  rw [two.children, rewriteAll_append,
    rewriteAll_extras (fun child member => leaves child (.inl member)), rewriteAll_cons,
    rewriteAll_append,
    rewriteAll_extras (fun child member => leaves child (.inr (.inl member))), rewriteAll_cons,
    rewriteAll_extras (fun child member => leaves child (.inr (.inr member)))]

/-- The rewritten parts of a call. -/
theorem textOf_call {node function arguments : Node}
    (wellFormed : node.WellFormed context.source.chars) (isCall : node.kind = .callExpression)
    (functionPart : node.child? .function = some function)
    (argumentsPart : node.child? .arguments = some arguments) (counters : WidgetCounters) :
    Rewritten.textOf .function (rewriteAll context ancestors node.children counters).1 =
        (rewrite context ancestors function counters).1.text ∧
      Rewritten.textOf .arguments (rewriteAll context ancestors node.children counters).1 =
        (rewrite context ancestors arguments
          (rewrite context ancestors function counters).2).1.text := by
  obtain ⟨before, between, after, two⟩ :=
    Node.exists_twoValues (wellFormed.values_call isCall functionPart argumentsPart)
  have isFunction : function.role = some .function := by
    simpa using List.find?_some functionPart
  have isArguments : arguments.role = some .arguments := by
    simpa using List.find?_some argumentsPart
  have noRole := fun child member => (two.leaf wellFormed child member).2
  have passed : ∀ (role : Role) (nodes : List Node) (more : List Rewritten),
      (∀ child ∈ nodes, child.role = none) →
        (nodes.map (unchanged context.source) ++ more).find?
            (fun part => part.node.role == some role) =
          more.find? fun part => part.node.role == some role := by
    intro role nodes more none
    have noneFound : (nodes.map (unchanged context.source)).find?
        (fun part => part.node.role == some role) = Option.none := by
      simp only [List.find?_eq_none, List.forall_mem_map]
      intro child member
      simp [unchanged, Rewritten.node, none child member]
    rw [List.find?_append, noneFound, Option.none_or]
  rw [rewriteAll_twoValues wellFormed two]
  constructor
  · rw [Rewritten.textOf, passed _ _ _ fun child member => noRole child (.inl member)]
    simp [node_rewrite, isFunction]
  · rw [Rewritten.textOf, passed _ _ _ fun child member => noRole child (.inl member),
      List.find?_cons_of_neg (by simp [node_rewrite, isFunction]),
      passed _ _ _ fun child member => noRole child (.inr (.inl member))]
    simp [node_rewrite, isArguments]

/-- A rewritten labelled statement: the named expression and what follows it in the program. -/
theorem labeled_rewriteAll {node body expression : Node} {before after : List Node}
    (wellFormed : node.WellFormed context.source.chars)
    (isLabeled : node.kind = .labeledStatement) (bodyPart : node.child? .body = some body)
    (isExpression : body.kind = .expressionStatement)
    (children : body.children = before ++ expression :: after)
    (extras : ∀ child ∈ before, child.kind.isExtra = true ∧ child.children = [])
    (isValue : expression.kind.isExtra = false) (name : String) (counters : WidgetCounters) :
    let named' := rewrite context (body :: ancestors) expression counters
    labeled context.source node.stop name
        (rewriteAll context ancestors node.children counters).1 =
      named expression.kind.isMemberSafe named'.1.text name ++
        Rewritten.weave context.source expression.stop node.stop
          (rewriteAll context (body :: ancestors) after named'.2).1 := by
  intro named'
  obtain ⟨label, found, labelPart, foundPart, values, _, labelKind, leaf⟩ :=
    wellFormed.exists_label_parts isLabeled
  obtain rfl := Option.some.inj (foundPart.symm.trans bodyPart)
  obtain ⟨front, between, behind, two⟩ := Node.exists_twoValues values
  have isLabel : label.role = some .label := by
    simpa using List.find?_some labelPart
  have isBody : found.role = some .body := by
    simpa using List.find?_some foundPart
  have noRule : ∀ parent (other : Node), other = label ∨ other = found →
      Rule.select? context.registry (Shape.of context.source parent other) = none := by
    rintro parent other (rfl | rfl) <;>
      apply Rule.select?_eq_none_of_kind <;> simp [labelKind, isExpression]
  have labelKeeps : (rewrite context ancestors label counters).2 = counters := by
    rw [rewrite_of_no_rule (noRule _ _ (.inl rfl)), leaf]
    rfl
  have bodyParts : (rewrite context ancestors found counters).1.parts =
      before.map (unchanged context.source) ++
        named'.1 :: (rewriteAll context (found :: ancestors) after named'.2).1 := by
    rw [rewrite_of_no_rule (noRule _ _ (.inr rfl)), children, rewriteAll_append,
      rewriteAll_extras extras, rewriteAll_cons]
    rfl
  have noRole := fun child member => (two.leaf wellFormed child member).2
  have toBody : (front.map (unchanged context.source) ++
      (rewrite context ancestors label counters).1 :: (between.map (unchanged context.source) ++
        (rewrite context ancestors found counters).1 ::
          behind.map (unchanged context.source))).dropWhile
            (fun part => part.node.role != some .body) =
      (rewrite context ancestors found counters).1 :: behind.map (unchanged context.source) := by
    rw [List.dropWhile_append_of_pos, List.dropWhile_cons_of_pos, List.dropWhile_append_of_pos,
      List.dropWhile_cons_of_neg]
    · simp [node_rewrite, isBody]
    · simp only [List.forall_mem_map]
      intro child member
      simp [unchanged, Rewritten.node, noRole child (.inr (.inl member))]
    · simp [node_rewrite, isLabel]
    · simp only [List.forall_mem_map]
      intro child member
      simp [unchanged, Rewritten.node, noRole child (.inl member)]
  have toExpression : (before.map (unchanged context.source) ++
      named'.1 :: (rewriteAll context (found :: ancestors) after named'.2).1).dropWhile
        (fun part => part.node.kind.isExtra) =
      named'.1 :: (rewriteAll context (found :: ancestors) after named'.2).1 := by
    rw [List.dropWhile_append_of_pos, List.dropWhile_cons_of_neg]
    · simp [named', node_rewrite, isValue]
    · simp only [List.forall_mem_map]
      intro child member
      simp [unchanged, Rewritten.node, (extras child member).1]
  rw [rewriteAll_twoValues wellFormed two, labelKeeps, labeled, toBody]
  simp only [bodyParts, toExpression]
  have laid := wellFormed.laid
  rw [two.children, ← List.cons_append, ← List.append_assoc] at laid
  have bodyLaid := (wellFormed.child (Node.mem_children_of_child? bodyPart)).laid
  rw [children] at bodyLaid
  rw [node_rewrite, node_rewrite, weave_unchanged laid.behind,
    weave_eq_append_slice laid.behind.last laid.behind.le
      ((map_node_rewriteAll after named'.2).symm ▸ bodyLaid.behind), List.append_assoc]

end Children

end PatternScript
