import PatternScript.Proofs.Transpile.Recorded

/-!
Contract: how the replacements of a walk lie in each other.

A walk records the replacement of a node before those of the nodes below it, and those of a node
before those of the nodes behind it. On a well-formed tree the keys are therefore recorded in their
order, and of two replacements the later one stands behind the earlier one or wholly inside one of
its source parts.

Owns: where the replacements of a tree lie, their order, and their nesting.
Does not own: what is written for them.
-/

namespace PatternScript

open Script
open Text (Boundary)

/-- A replacement covers some whole characters inside a range. -/
structure Edit.Covered (text : List Char) (range : ByteRange) (edit : Edit) : Prop where
  covers : edit.key.start < edit.key.stop
  within : edit.range.Within range
  first : Boundary text edit.key.start
  last : Boundary text edit.key.stop

/-- The source parts of a replacement lie inside the range that it takes the place of. -/
def Edit.HoldsSources (edit : Edit) : Prop :=
  ∀ range ∈ edit.emission.sources, range.Within edit.range

/-- A later replacement stands behind an earlier one, or it is smaller and lies inside exactly one
of the source parts of the earlier one. -/
def Edit.Follows (earlier later : Edit) : Prop :=
  earlier.key.stop ≤ later.key.start ∨
    (later.range.Within earlier.range ∧ later.key ≠ earlier.key ∧
      earlier.emission.sources.countP (fun range => decide (later.range.Within range)) = 1)

namespace Edit.Covered

theorem mono {text : List Char} {inner outer : ByteRange} {edit : Edit}
    (covered : edit.Covered text inner) (within : inner.Within outer) :
    edit.Covered text outer :=
  ⟨covered.covers,
    ⟨Nat.le_trans within.1 covered.within.1, Nat.le_trans covered.within.2 within.2⟩,
    covered.first, covered.last⟩

end Edit.Covered

namespace Pass

/-! ## Nodes without findings -/

/-- A node without a rule only adds what is found in its children. -/
theorem explore_of_no_rule {context : PassContext} {ancestors : List Node} {node : Node}
    (noRule : Rule.select? context.registry
      (Shape.of context.source ancestors.head? node) = none) (counters : WidgetCounters) :
    explore context ancestors node counters =
      exploreAll context (node :: ancestors) node.children counters := by
  obtain ⟨kind, role, range, children⟩ := node
  rw [explore]
  simp [look, visit, noRule, Findings.ofVisit, Findings.ofPass, Findings.append, Node.children]

/-- A leaf of a kind without rules adds nothing. -/
theorem explore_leaf {context : PassContext} {ancestors : List Node} {node : Node}
    (noRule : Rule.select? context.registry
      (Shape.of context.source ancestors.head? node) = none)
    (leaf : node.children = []) (counters : WidgetCounters) :
    explore context ancestors node counters = { counters := counters } := by
  rw [explore_of_no_rule noRule, leaf, exploreAll]

/-- A comment has no rule. -/
theorem select?_extra {context : PassContext} {parent : Option Node} {node : Node}
    (isExtra : node.kind.isExtra = true) :
    Rule.select? context.registry (Shape.of context.source parent node) = none := by
  apply Rule.select?_eq_none_of_kind <;> intro kind <;> simp [kind, Kind.isExtra] at isExtra

theorem exploreAll_append (context : PassContext) (ancestors left right : List Node)
    (counters : WidgetCounters) :
    exploreAll context ancestors (left ++ right) counters =
      (exploreAll context ancestors left counters).append
        (exploreAll context ancestors right
          (exploreAll context ancestors left counters).counters) := by
  induction left generalizing counters with
  | nil => simp [exploreAll, Findings.append]
  | cons node rest inductionHypothesis =>
      simp [exploreAll, inductionHypothesis, Findings.append]

/-- Comments add nothing. -/
theorem exploreAll_extras {context : PassContext} {ancestors nodes : List Node}
    (extras : ∀ node ∈ nodes, node.kind.isExtra = true ∧ node.children = [])
    (counters : WidgetCounters) :
    exploreAll context ancestors nodes counters = { counters := counters } := by
  induction nodes with
  | nil => rw [exploreAll]
  | cons node rest inductionHypothesis =>
      obtain ⟨isExtra, leaf⟩ := extras node List.mem_cons_self
      have atRest := inductionHypothesis fun other member =>
        extras other (List.mem_cons_of_mem _ member)
      simp [exploreAll, explore_leaf (select?_extra isExtra) leaf, atRest, Findings.append]

/-- Below a node with two values only these add something. -/
theorem exploreAll_twoValues {context : PassContext} {ancestors : List Node}
    {node first second : Node} (wellFormed : node.WellFormed context.source.chars)
    (two : node.values = [first, second]) (counters : WidgetCounters) :
    exploreAll context ancestors node.children counters =
      (explore context ancestors first counters).append
        (explore context ancestors second
          (explore context ancestors first counters).counters) := by
  obtain ⟨before, between, after, two⟩ := Node.exists_twoValues two
  have leaves := fun child member => (two.leaf wellFormed child member).1
  rw [two.children, exploreAll_append,
    exploreAll_extras (fun child member => leaves child (.inl member)), exploreAll,
    exploreAll_append,
    exploreAll_extras (fun child member => leaves child (.inr (.inl member))), exploreAll,
    exploreAll_extras (fun child member => leaves child (.inr (.inr member)))]
  simp [Findings.append]

/-! ## Where replacements lie -/

/-- What is found in some trees is found in one of them. -/
theorem mem_edits_exploreAll {context : PassContext} {ancestors nodes : List Node}
    {counters : WidgetCounters} {edit : Edit}
    (member : edit ∈ (exploreAll context ancestors nodes counters).edits) :
    ∃ node ∈ nodes, ∃ reached, edit ∈ (explore context ancestors node reached).edits := by
  induction nodes generalizing counters with
  | nil => simp [exploreAll] at member
  | cons node rest inductionHypothesis =>
      rw [exploreAll] at member
      rcases List.mem_append.mp member with inFirst | inRest
      · exact ⟨node, List.mem_cons_self, counters, inFirst⟩
      · obtain ⟨other, below, found⟩ := inductionHypothesis inRest
        exact ⟨other, List.mem_cons_of_mem _ below, found⟩

/-- What is found in a tree is found at its root or below it. -/
theorem mem_edits_explore {context : PassContext} {ancestors : List Node} {node : Node}
    {counters : WidgetCounters} {edit : Edit}
    (member : edit ∈ (explore context ancestors node counters).edits) :
    edit ∈ (look context ancestors node counters).2.edits ∨
      ∃ child ∈ node.children, ∃ reached,
        edit ∈ (explore context (node :: ancestors) child reached).edits := by
  obtain ⟨kind, role, range, children⟩ := node
  rw [explore] at member
  split at member
  case _ here looked =>
      rw [looked]
      rcases List.mem_append.mp member with atNode | below
      · exact .inl atNode
      · exact .inr (mem_edits_exploreAll below)
  case _ here looked =>
      rw [looked]
      exact .inl member

/-- The expression of a labelled statement lies behind the start of the statement. -/
theorem expression_placed {text : List Char} {node body expression : Node}
    (wellFormed : node.WellFormed text) (isLabeled : node.kind = .labeledStatement)
    (bodyPart : node.child? .body = some body)
    (firstValue : body.values.head? = some expression) :
    node.start < body.start ∧ expression.range.Within body.range ∧
      body.range.Within node.range ∧ expression.WellFormed text := by
  obtain ⟨label, found, _, foundPart, two, covers, _⟩ := wellFormed.exists_label_parts isLabeled
  obtain rfl := Option.some.inj (foundPart.symm.trans bodyPart)
  obtain ⟨before, between, after, children, _⟩ := Node.exists_twoValues two
  have memberLabel : label ∈ node.children := by simp [children]
  have memberBody : found ∈ node.children := by simp [children]
  have memberExpression : expression ∈ found.children :=
    Node.mem_children_of_mem_values (List.mem_of_head? firstValue)
  have ordered : label.stop ≤ found.start := by
    have pairs := wellFormed.placed.ordered
    rw [children, List.pairwise_append, List.pairwise_cons] at pairs
    exact pairs.2.1.1 found (by simp)
  have labelInside := wellFormed.placed.inside label memberLabel
  have bodyWellFormed := wellFormed.child memberBody
  refine ⟨?_, bodyWellFormed.placed.inside expression memberExpression,
    wellFormed.placed.inside found memberBody, bodyWellFormed.child memberExpression⟩
  simp only [ByteRange.Within, Node.start, Node.stop] at *
  omega

/-- A replacement recorded at a node covers some text of the node. -/
theorem covered_look {context : PassContext} {node : Node}
    (wellFormed : node.WellFormed context.source.chars) (ancestors : List Node)
    (counters : WidgetCounters) :
    ∀ edit ∈ (look context ancestors node counters).2.edits,
      edit.Covered context.source.chars node.range ∧ edit.HoldsSources := by
  have recorded := recorded_look wellFormed ancestors counters
  generalize look context ancestors node counters = looked at recorded
  generalize Manner.of context ancestors node counters = manner at recorded
  have placed := wellFormed.placed
  -- A replacement of the whole node covers what the node covers.
  have whole : ∀ emission : Emission, node.start < node.stop →
      (⟨node.key, emission⟩ : Edit).Covered context.source.chars node.range :=
    fun emission covers => ⟨covers, ⟨Nat.le_refl _, Nat.le_refl _⟩, placed.first, placed.last⟩
  cases recorded with
  | nothing _ none => simp [none]
  | folded _ covers one parts _ =>
      simp only [one, List.mem_singleton, forall_eq]
      exact ⟨whole _ covers, fun range isSource => (parts range isSource).within⟩
  | @identified found counters function arguments id _ isCall functionPart argumentsPart isList
      one =>
      simp only [one, List.mem_singleton, forall_eq]
      refine ⟨whole _ (covers_of_call wellFormed isCall), ?_⟩
      have member := Node.mem_children_of_child? argumentsPart
      have isArguments := wellFormed.kind_arguments isCall argumentsPart isList
      intro range isSource
      simp only [Emission.callBefore, Emission.sources, Arguments.sources, List.nil_append,
        List.cons_append, List.mem_cons, Option.mem_toList] at isSource
      rcases isSource with rfl | inner
      · exact placed.inside function (Node.mem_children_of_child? functionPart)
      · exact ((inner?_arguments wellFormed member isArguments function).1 range inner).2.1.within
  | @awaiting found counters standsAlone _ isCall one =>
      simp only [one, List.mem_singleton, forall_eq]
      refine ⟨whole _ (covers_of_call wellFormed isCall), ?_⟩
      intro range isSource
      have same : range = node.range := by
        cases standsAlone <;> simpa [Emission.sources] using isSource
      rw [same]
      exact ⟨Nat.le_refl _, Nat.le_refl _⟩
  | @naming found counters body expression name _ isLabeled bodyPart _ firstValue one =>
      simp only [one, List.mem_singleton, forall_eq]
      obtain ⟨behind, inBody, inNode, expressionWellFormed⟩ :=
        expression_placed wellFormed isLabeled bodyPart firstValue
      have forward := expressionWellFormed.placed.forward
      simp only [ByteRange.Within, Node.start, Node.stop] at behind inBody inNode forward
      refine ⟨⟨?_, ⟨Nat.le_refl _, ?_⟩, placed.first, expressionWellFormed.placed.last⟩, ?_⟩
      · simp only [Node.start, Node.stop]
        omega
      · simp only [Edit.range, Node.stop]
        omega
      · intro range isSource
        have same : range = expression.range := by
          by_cases safe : expression.kind.isMemberSafe <;>
            simpa [safe, Emission.method, Emission.callWith, Emission.sources, Arguments.sources,
              Emission.sourcesAll] using isSource
        rw [same]
        refine ⟨?_, Nat.le_refl _⟩
        simp only [Edit.range, Node.start]
        omega

/-- Every replacement found in a tree covers some text of the tree and holds its source parts. -/
theorem covered_explore {context : PassContext} (node : Node) :
    node.WellFormed context.source.chars → ∀ (ancestors : List Node) (counters : WidgetCounters),
      ∀ edit ∈ (explore context ancestors node counters).edits,
        edit.Covered context.source.chars node.range ∧ edit.HoldsSources := by
  induction node using Node.induction with
  | step kind role range children inductionHypothesis =>
      intro wellFormed ancestors counters edit member
      rcases mem_edits_explore member with atNode | ⟨child, below, reached, found⟩
      · exact covered_look wellFormed ancestors counters edit atNode
      · obtain ⟨covered, holds⟩ :=
          inductionHypothesis child below (wellFormed.child below) _ reached edit found
        exact ⟨covered.mono (wellFormed.placed.inside child below), holds⟩

/-- Every replacement found in some trees covers some text of one of them. -/
theorem exists_covered_exploreAll {context : PassContext} {ancestors nodes : List Node}
    (wellFormed : ∀ node ∈ nodes, node.WellFormed context.source.chars)
    (counters : WidgetCounters) {edit : Edit}
    (member : edit ∈ (exploreAll context ancestors nodes counters).edits) :
    ∃ node ∈ nodes, edit.Covered context.source.chars node.range := by
  obtain ⟨node, isNode, reached, found⟩ := mem_edits_exploreAll member
  exact ⟨node, isNode,
    (covered_explore node (wellFormed node isNode) ancestors reached edit found).1⟩

/-- Every replacement found in trees that are laid between two places covers some text between
them. -/
theorem covered_exploreAll {context : PassContext} {ancestors nodes : List Node} {start stop : Nat}
    (wellFormed : ∀ node ∈ nodes, node.WellFormed context.source.chars)
    (laid : Node.Laid context.source.chars stop start nodes) (counters : WidgetCounters) :
    ∀ edit ∈ (exploreAll context ancestors nodes counters).edits,
      edit.Covered context.source.chars ⟨start, stop⟩ := by
  intro edit member
  obtain ⟨node, isNode, covered⟩ := exists_covered_exploreAll wellFormed counters member
  exact covered.mono (laid.bounds node isNode)

/-! ## Below the nodes that are wrapped -/

/-- No rule applies to the arguments of a call. -/
theorem select?_arguments {context : PassContext} {parent : Option Node} {arguments : Node}
    (kind : arguments.kind = .arguments) :
    Rule.select? context.registry (Shape.of context.source parent arguments) = none := by
  apply Rule.select?_eq_none_of_kind <;> simp [kind]

/-- What is found in the arguments of a call lies between the parentheses. -/
theorem covered_arguments {context : PassContext} {node : Node}
    (wellFormed : node.WellFormed context.source.chars) (isArguments : node.kind = .arguments)
    (ancestors : List Node) (counters : WidgetCounters) :
    ∀ edit ∈ (explore context ancestors node counters).edits,
      edit.Covered context.source.chars ⟨node.start + 1, node.stop - 1⟩ := by
  have laid := wellFormed.laid_between (wellFormed.placed.arguments isArguments) rfl rfl
  rw [explore_of_no_rule (select?_arguments isArguments)]
  exact covered_exploreAll (fun child below => wellFormed.child below) laid counters

/-- What is found below a call is found in its function or between the parentheses of its
arguments, and the function stands before the arguments. -/
theorem mem_edits_call {context : PassContext} {node function arguments : Node}
    (wellFormed : node.WellFormed context.source.chars) (isCall : node.kind = .callExpression)
    (functionPart : node.child? .function = some function)
    (argumentsPart : node.child? .arguments = some arguments)
    (isList : arguments.kind ≠ .templateString) {ancestors : List Node}
    {counters : WidgetCounters} {edit : Edit}
    (member : edit ∈ (exploreAll context ancestors node.children counters).edits) :
    edit.Covered context.source.chars function.range ∨
      edit.Covered context.source.chars ⟨arguments.start + 1, arguments.stop - 1⟩ := by
  have isArguments := wellFormed.kind_arguments isCall argumentsPart isList
  have two := wellFormed.values_call isCall functionPart argumentsPart
  rw [exploreAll_twoValues wellFormed two] at member
  rcases List.mem_append.mp member with inFunction | inArguments
  · have below := Node.mem_children_of_child? functionPart
    exact .inl (covered_explore _ (wellFormed.child below) _ _ edit inFunction).1
  · have below := Node.mem_children_of_child? argumentsPart
    exact .inr (covered_arguments (wellFormed.child below) isArguments _ _ edit inArguments)

/-- The function of a call covers some text and ends before the arguments start. -/
theorem call_ordered {text : List Char} {node function arguments : Node}
    (wellFormed : node.WellFormed text) (isCall : node.kind = .callExpression)
    (functionPart : node.child? .function = some function)
    (argumentsPart : node.child? .arguments = some arguments) :
    function.start < function.stop ∧ function.stop ≤ arguments.start ∧
      arguments.start < arguments.stop ∧ function.range.Within node.range ∧
      arguments.range.Within node.range := by
  obtain ⟨first, second, firstPart, secondPart, two, covers, covers', _⟩ :=
    wellFormed.exists_call_parts isCall
  obtain rfl := Option.some.inj (firstPart.symm.trans functionPart)
  obtain rfl := Option.some.inj (secondPart.symm.trans argumentsPart)
  obtain ⟨before, between, after, children, _⟩ := Node.exists_twoValues two
  have ordered := wellFormed.placed.ordered
  rw [children, List.pairwise_append, List.pairwise_cons] at ordered
  exact ⟨covers, ordered.2.1.1 second (by simp), covers',
    wellFormed.placed.inside first (by simp [children]),
    wellFormed.placed.inside second (by simp [children])⟩

/-- The first value of a node stands before its other children, except for comments. -/
theorem exploreAll_firstValue {context : PassContext} {node first : Node}
    (wellFormed : node.WellFormed context.source.chars)
    (firstValue : node.values.head? = some first) (ancestors : List Node)
    (counters : WidgetCounters) :
    ∃ before after, node.children = before ++ first :: after ∧
      (∀ child ∈ before, child.kind.isExtra = true ∧ child.children = []) ∧
      first.kind.isExtra = false ∧
      exploreAll context ancestors node.children counters =
        (explore context ancestors first counters).append
          (exploreAll context ancestors after
            (explore context ancestors first counters).counters) := by
  obtain ⟨rest, values⟩ := List.head?_eq_some_iff.mp firstValue
  obtain ⟨before, after, children, extras, isValue, _⟩ := List.filter_eq_cons_iff.mp values
  have leaves : ∀ child ∈ before, child.kind.isExtra = true ∧ child.children = [] := by
    intro child member
    have isExtra : child.kind.isExtra = true := by simpa using extras child member
    have below : child ∈ node.children := by simp [children, member]
    exact ⟨isExtra, List.isEmpty_iff.mp ((wellFormed.child below).placed.extra isExtra).2⟩
  refine ⟨before, after, children, leaves, by simpa using isValue, ?_⟩
  rw [children, exploreAll_append, exploreAll_extras leaves, exploreAll]
  simp [Findings.append]

/-- Below a labelled expression statement something is found in the expression first, and then
behind it. -/
theorem exploreAll_labeled {context : PassContext} {ancestors : List Node}
    {node body expression : Node} (wellFormed : node.WellFormed context.source.chars)
    (isLabeled : node.kind = .labeledStatement) (bodyPart : node.child? .body = some body)
    (isExpression : body.kind = .expressionStatement)
    (firstValue : body.values.head? = some expression) (counters : WidgetCounters) :
    ∃ before after, body.children = before ++ expression :: after ∧
      (∀ child ∈ before, child.kind.isExtra = true ∧ child.children = []) ∧
      expression.kind.isExtra = false ∧
      exploreAll context ancestors node.children counters =
        (explore context (body :: ancestors) expression counters).append
          (exploreAll context (body :: ancestors) after
            (explore context (body :: ancestors) expression counters).counters) := by
  obtain ⟨label, found, labelPart, foundPart, two, _, labelKind, leaf⟩ :=
    wellFormed.exists_label_parts isLabeled
  obtain rfl := Option.some.inj (foundPart.symm.trans bodyPart)
  have noLabelRule : ∀ parent, Rule.select? context.registry
      (Shape.of context.source parent label) = none := by
    intro parent
    apply Rule.select?_eq_none_of_kind <;> simp [labelKind]
  have noBodyRule : ∀ parent, Rule.select? context.registry
      (Shape.of context.source parent found) = none := by
    intro parent
    apply Rule.select?_eq_none_of_kind <;> simp [isExpression]
  have memberBody := Node.mem_children_of_child? bodyPart
  obtain ⟨before, after, children, extras, isValue, below⟩ :=
    exploreAll_firstValue (wellFormed.child memberBody) firstValue (found :: ancestors) counters
  refine ⟨before, after, children, extras, isValue, ?_⟩
  rw [exploreAll_twoValues wellFormed two, explore_leaf (noLabelRule _) leaf,
    explore_of_no_rule (noBodyRule _), below]
  simp [Findings.append]

/-! ## The order in which replacements are recorded -/

/-- Later recorded, later in the order, and nested rightly. -/
def InTurn (earlier later : Edit) : Prop :=
  earlier.key.before later.key = true ∧ earlier.Follows later

/-- A replacement that covers text before a place comes before one that starts there. -/
theorem inTurn_of_le {earlier later : Edit} (covers : earlier.key.start < earlier.key.stop)
    (apart : earlier.key.stop ≤ later.key.start) : InTurn earlier later :=
  ⟨EditKey.before_iff.mpr (.inl (by omega)), .inl apart⟩

/-- A replacement comes before a smaller one inside one of its source parts. -/
theorem inTurn_of_within {earlier later : Edit} (within : later.range.Within earlier.range)
    (smaller : earlier.key.start < later.key.start ∨ later.key.stop < earlier.key.stop)
    (once : earlier.emission.sources.countP (fun range => decide (later.range.Within range)) = 1) :
    InTurn earlier later := by
  have inside := within
  simp only [ByteRange.Within, Edit.range] at inside
  refine ⟨EditKey.before_iff.mpr (by omega), .inr ⟨within, ?_, once⟩⟩
  rintro same
  have starts := congrArg EditKey.start same
  have stops := congrArg EditKey.stop same
  omega

/-- Trees that follow each other are taken in turn. -/
theorem pairwise_exploreAll {context : PassContext} {ancestors nodes : List Node}
    (wellFormed : ∀ node ∈ nodes, node.WellFormed context.source.chars)
    (ordered : nodes.Pairwise fun left right => left.stop ≤ right.start)
    (each : ∀ node ∈ nodes, ∀ counters,
      (explore context ancestors node counters).edits.Pairwise InTurn)
    (counters : WidgetCounters) :
    (exploreAll context ancestors nodes counters).edits.Pairwise InTurn := by
  induction nodes generalizing counters with
  | nil => simp [exploreAll]
  | cons node rest inductionHypothesis =>
      rw [List.pairwise_cons] at ordered
      have restWellFormed := fun other member => wellFormed other (List.mem_cons_of_mem node member)
      rw [exploreAll]
      refine List.pairwise_append.mpr ⟨each node List.mem_cons_self counters,
        inductionHypothesis restWellFormed ordered.2
          (fun other member => each other (List.mem_cons_of_mem _ member)) _, ?_⟩
      intro earlier inFirst later inRest
      have covered := (covered_explore node (wellFormed node List.mem_cons_self) ancestors counters
        earlier inFirst).1
      obtain ⟨other, member, coveredLater⟩ := exists_covered_exploreAll restWellFormed _ inRest
      have apart : node.stop ≤ other.start := ordered.1 other member
      have inNode := covered.within
      have inOther := coveredLater.within
      simp only [ByteRange.Within, Edit.range, Node.start, Node.stop] at *
      exact inTurn_of_le covered.covers (by omega)

section Wrapped

variable {context : PassContext} {node : Node} {ancestors : List Node} {counters : WidgetCounters}

/-- A call with an identifier wraps what is found in its function and between its parentheses. -/
theorem inTurn_identified {function arguments : Node} {id : String}
    (wellFormed : node.WellFormed context.source.chars) (isCall : node.kind = .callExpression)
    (functionPart : node.child? .function = some function)
    (argumentsPart : node.child? .arguments = some arguments)
    (isList : arguments.kind ≠ .templateString) {later : Edit}
    (below : later ∈ (exploreAll context ancestors node.children counters).edits) :
    InTurn ⟨node.key, .callBefore (.source function.range) (.identifier id)
      (CallParts.inner? ⟨node.range, function, arguments⟩)⟩ later := by
  obtain ⟨covers, apart, covers', inNode, inNode'⟩ :=
    call_ordered wellFormed isCall functionPart argumentsPart
  simp only [ByteRange.Within, Node.start, Node.stop] at covers apart covers' inNode inNode'
  rcases mem_edits_call wellFormed isCall functionPart argumentsPart isList below with
    inFunction | inArguments
  · obtain ⟨nonempty, within, _, _⟩ := inFunction
    have inside : later.range.Within function.range := within
    simp only [ByteRange.Within, Edit.range] at within
    have outside : ∀ range, CallParts.inner? ⟨node.range, function, arguments⟩ = some range →
        ¬ later.range.Within range := by
      intro range given
      simp only [CallParts.inner?] at given
      split at given
      · obtain rfl := Option.some.inj given
        simp only [ByteRange.Within, Edit.range]
        omega
      · simp at given
    refine inTurn_of_within ?_ ?_ ?_
    · simp only [ByteRange.Within, Edit.range, Node.key, Node.start, Node.stop]
      omega
    · simp only [Node.key, Node.start, Node.stop]
      omega
    · cases inner : CallParts.inner? ⟨node.range, function, arguments⟩ with
      | none => simp [Emission.callBefore, Emission.sources, Arguments.sources, inside]
      | some range =>
          simp [Emission.callBefore, Emission.sources, Arguments.sources, inside,
            outside range inner]
  · obtain ⟨nonempty, within, _, _⟩ := inArguments
    have inside : later.range.Within ⟨arguments.range.start + 1, arguments.range.stop - 1⟩ := within
    simp only [ByteRange.Within, Edit.range, Node.start, Node.stop] at within
    have outside : ¬ later.range.Within function.range := by
      simp only [ByteRange.Within, Edit.range]
      omega
    -- It covers text between the parentheses, so there is such text.
    have inner : CallParts.inner? ⟨node.range, function, arguments⟩ =
        some ⟨arguments.range.start + 1, arguments.range.stop - 1⟩ := by
      simp only [CallParts.inner?]
      rw [if_pos (by omega)]
    refine inTurn_of_within ?_ ?_ ?_
    · simp only [ByteRange.Within, Edit.range, Node.key, Node.start, Node.stop]
      omega
    · simp only [Node.key, Node.start, Node.stop]
      omega
    · simp [Emission.callBefore, Emission.sources, Arguments.sources, outside, inner, inside]

/-- An awaited call wraps what is found in its function and its arguments, neither of which is the
whole call. -/
theorem inTurn_awaiting {standsAlone : Bool} (wellFormed : node.WellFormed context.source.chars)
    (isCall : node.kind = .callExpression) {later : Edit}
    (below : later ∈ (exploreAll context ancestors node.children counters).edits) :
    InTurn ⟨node.key, if standsAlone then .await (.source node.range)
      else .parens (.await (.source node.range))⟩ later := by
  obtain ⟨function, arguments, functionPart, argumentsPart, two, _⟩ :=
    wellFormed.exists_call_parts isCall
  obtain ⟨covers, apart, covers', inNode, inNode'⟩ :=
    call_ordered wellFormed isCall functionPart argumentsPart
  have smaller : later.range.Within node.range ∧
      (node.start < later.key.start ∨ later.key.stop < node.stop) := by
    rw [exploreAll_twoValues wellFormed two] at below
    rcases List.mem_append.mp below with inFunction | inArguments
    · have part := wellFormed.child (Node.mem_children_of_child? functionPart)
      obtain ⟨lower, upper⟩ := (covered_explore _ part _ _ later inFunction).1.within
      simp only [ByteRange.Within, Edit.range, Node.start, Node.stop] at *
      omega
    · have part := wellFormed.child (Node.mem_children_of_child? argumentsPart)
      obtain ⟨lower, upper⟩ := (covered_explore _ part _ _ later inArguments).1.within
      simp only [ByteRange.Within, Edit.range, Node.start, Node.stop] at *
      omega
  refine inTurn_of_within smaller.1 smaller.2 ?_
  cases standsAlone <;> simp [Emission.sources, smaller.1]

/-- A named expression wraps what is found in it and stands before what follows it. -/
theorem inTurn_naming {body expression : Node} {name : String}
    (wellFormed : node.WellFormed context.source.chars)
    (isLabeled : node.kind = .labeledStatement) (bodyPart : node.child? .body = some body)
    (isExpression : body.kind = .expressionStatement)
    (firstValue : body.values.head? = some expression) {later : Edit}
    (below : later ∈ (exploreAll context ancestors node.children counters).edits) :
    InTurn ⟨⟨node.start, expression.stop⟩,
      .method (if expression.kind.isMemberSafe then .source expression.range
        else .parens (.source expression.range)) "p" [.quoted name]⟩ later := by
  obtain ⟨behind, inBody, inNode, expressionWellFormed⟩ :=
    expression_placed wellFormed isLabeled bodyPart firstValue
  obtain ⟨before, after, children, _, _, found⟩ := exploreAll_labeled wellFormed isLabeled
    bodyPart isExpression firstValue _
  rw [found] at below
  simp only [ByteRange.Within, Node.start] at behind inBody inNode
  rcases List.mem_append.mp below with inExpression | inAfter
  · have within := (covered_explore _ expressionWellFormed _ _ later inExpression).1.within
    have inside := within
    simp only [ByteRange.Within, Edit.range] at inside
    refine inTurn_of_within ?_ (.inl ?_) ?_
    · simp only [ByteRange.Within, Edit.range, Node.start, Node.stop]
      omega
    · simp only [Node.start]
      omega
    · by_cases safe : expression.kind.isMemberSafe <;>
        simp [safe, Emission.method, Emission.callWith, Emission.sources, Arguments.sources,
          Emission.sourcesAll, within]
  · have bodyWellFormed := wellFormed.child (Node.mem_children_of_child? bodyPart)
    have ordered := bodyWellFormed.placed.ordered
    rw [children, List.pairwise_append, List.pairwise_cons] at ordered
    obtain ⟨other, member, covered⟩ := exists_covered_exploreAll
      (fun child member => bodyWellFormed.child (by simp [children, member])) _ inAfter
    have apart := ordered.2.1.1 other member
    have forward := expressionWellFormed.placed.forward
    have inOther := covered.within.1
    simp only [Edit.range, Node.start, Node.stop] at *
    refine inTurn_of_le ?_ ?_ <;> simp only <;> omega

/-- What is recorded at a node comes before what is found below it. -/
theorem inTurn_below (wellFormed : node.WellFormed context.source.chars)
    (descends : (look context ancestors node counters).1 = .descend) {earlier later : Edit}
    (atNode : earlier ∈ (look context ancestors node counters).2.edits)
    (below : later ∈ (exploreAll context (node :: ancestors) node.children
      (look context ancestors node counters).2.counters).edits) :
    InTurn earlier later := by
  have recorded := recorded_look wellFormed ancestors counters
  generalize look context ancestors node counters = looked at *
  generalize Manner.of context ancestors node counters = manner at recorded
  cases recorded with
  | nothing _ none => simp [none] at atNode
  | folded => simp at descends
  | identified _ isCall functionPart argumentsPart isList one =>
      obtain rfl := List.mem_singleton.mp (one ▸ atNode)
      exact inTurn_identified wellFormed isCall functionPart argumentsPart isList below
  | awaiting _ isCall one =>
      obtain rfl := List.mem_singleton.mp (one ▸ atNode)
      exact inTurn_awaiting wellFormed isCall below
  | naming _ isLabeled bodyPart isExpression firstValue one =>
      obtain rfl := List.mem_singleton.mp (one ▸ atNode)
      exact inTurn_naming wellFormed isLabeled bodyPart isExpression firstValue below

end Wrapped

/-- On a well-formed tree the replacements are recorded in the order of their keys, and each stands
behind those recorded before it or inside one of their source parts. -/
theorem pairwise_explore {context : PassContext} (node : Node) :
    node.WellFormed context.source.chars → ∀ (ancestors : List Node) (counters : WidgetCounters),
      (explore context ancestors node counters).edits.Pairwise InTurn := by
  induction node using Node.induction with
  | step kind role range children inductionHypothesis =>
      intro wellFormed ancestors counters
      have atNode : (look context ancestors (.mk kind role range children) counters).2.edits.Pairwise
          InTurn := by
        have recorded := recorded_look wellFormed ancestors counters
        generalize look context ancestors (.mk kind role range children) counters = looked at *
        generalize Manner.of context ancestors (.mk kind role range children) counters = manner at *
        cases recorded with
        | nothing _ none => simp [none]
        | folded _ _ one | identified _ _ _ _ _ one | awaiting _ _ one | naming _ _ _ _ _ one =>
            simp [one]
      have descends := @inTurn_below context (.mk kind role range children) ancestors counters
        wellFormed
      rw [explore]
      split
      case _ here looked =>
          rw [looked] at atNode descends
          refine List.pairwise_append.mpr ⟨atNode, ?_, fun earlier recorded later below =>
            descends rfl recorded below⟩
          exact pairwise_exploreAll (fun child below => wellFormed.child below)
            wellFormed.placed.ordered
            (fun child below => inductionHypothesis child below (wellFormed.child below) _) _
      case _ here looked =>
          rw [looked] at atNode
          exact atNode

end Pass

end PatternScript
