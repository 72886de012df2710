import PatternScript.Proofs.Source.Slices
import PatternScript.Script.Node

/-!
Contract: syntax trees that lie over a text the way a parser lays them.

Every node covers whole characters, its children stand in order inside it, comments are leaves that
play no part, and the constructs that the transpiler takes apart look the way the grammar of
JavaScript prescribes: a call is a function and arguments, arguments stand in parentheses, a label
stands before its statement, and strings and template literals carry their delimiters.

Owns: well-formedness of one node and of a tree, its decision, and the shapes of calls and labelled
statements that follow from it.
Does not own: where a tree comes from.
-/

namespace PatternScript.Script

open Text (Boundary)

namespace Node

/-! ## Induction over trees -/

mutual

theorem induction {motive : Node → Prop}
    (step : ∀ kind role range children, (∀ child ∈ children, motive child) →
      motive (.mk kind role range children)) :
    ∀ node, motive node
  | .mk kind role range children =>
      step kind role range children (inductionAll step children)

theorem inductionAll {motive : Node → Prop}
    (step : ∀ kind role range children, (∀ child ∈ children, motive child) →
      motive (.mk kind role range children)) :
    ∀ nodes : List Node, ∀ node ∈ nodes, motive node
  | [], _, member => absurd member List.not_mem_nil
  | first :: rest, node, member =>
      (List.mem_cons.mp member).elim (fun same => same ▸ induction step first)
        (inductionAll step rest node)

end

theorem mem_preorderAll {node : Node} {trees : List Node} :
    node ∈ preorderAll trees ↔ ∃ tree ∈ trees, node ∈ tree.preorder := by
  induction trees with
  | nil => simp [preorderAll]
  | cons tree rest inductionHypothesis =>
      simp [preorderAll, inductionHypothesis]

theorem mem_preorder_self (node : Node) : node ∈ node.preorder := by
  cases node
  simp [preorder]

theorem mem_preorder_of_child {node child other : Node} (below : child ∈ node.children)
    (member : other ∈ child.preorder) : other ∈ node.preorder := by
  cases node
  rw [preorder]
  exact List.mem_cons_of_mem _ (mem_preorderAll.mpr ⟨child, below, member⟩)

/-! ## Well-formed nodes -/

/-- The text of the node starts and ends with the given characters, one at each end, and its
children stand between them. -/
structure Delimited (text : List Char) (opening closing : Char) (node : Node) : Prop where
  long : 2 ≤ (Text.slice text node.range).length
  opens : (Text.slice text node.range).head? = some opening
  closes : (Text.slice text node.range).getLast? = some closing
  between : ∀ child ∈ node.children, node.start < child.start ∧ child.stop < node.stop

instance (text : List Char) (opening closing : Char) (node : Node) :
    Decidable (node.Delimited text opening closing) :=
  decidable_of_iff
    (2 ≤ (Text.slice text node.range).length ∧
      (Text.slice text node.range).head? = some opening ∧
      (Text.slice text node.range).getLast? = some closing ∧
      ∀ child ∈ node.children, node.start < child.start ∧ child.stop < node.stop)
    ⟨fun ⟨long, opens, closes, between⟩ => ⟨long, opens, closes, between⟩,
      fun delimited =>
        ⟨delimited.long, delimited.opens, delimited.closes, delimited.between⟩⟩

/-- The values of a call are its function and its arguments, both of which cover some text; the
arguments are a list in parentheses or a template literal. -/
def IsCall (node : Node) : Prop :=
  node.values.map role = [some .function, some .arguments] ∧
    ∀ value ∈ node.values, value.start < value.stop ∧
      (value.role = some .arguments → value.kind = .arguments ∨ value.kind = .templateString)

instance (node : Node) : Decidable node.IsCall :=
  inferInstanceAs (Decidable (_ ∧ _))

/-- The values of a labelled statement are a name that covers some text and the statement. -/
def IsLabeled (node : Node) : Prop :=
  node.values.map role = [some .label, some .body] ∧
    ∀ value ∈ node.values, value.role = some .label →
      value.start < value.stop ∧ value.kind = .statementIdentifier ∧
        value.children.isEmpty = true

instance (node : Node) : Decidable node.IsLabeled :=
  inferInstanceAs (Decidable (_ ∧ _))

/-- One node lies over a text the way the grammar prescribes. -/
structure Placed (text : List Char) (node : Node) : Prop where
  first : Boundary text node.start
  last : Boundary text node.stop
  forward : node.start ≤ node.stop
  inside : ∀ child ∈ node.children, child.range.Within node.range
  ordered : node.children.Pairwise fun left right => left.stop ≤ right.start
  /-- Comments are leaves and play no part in their parent. -/
  extra : node.kind.isExtra = true → node.role = none ∧ node.children.isEmpty = true
  call : node.kind = .callExpression → node.IsCall
  labeled : node.kind = .labeledStatement → node.IsLabeled
  arguments : node.kind = .arguments → node.Delimited text '(' ')'
  template : node.kind = .templateString → node.Delimited text '`' '`'
  string : node.kind = .string → node.Delimited text '"' '"' ∨ node.Delimited text '\'' '\''

instance (text : List Char) (node : Node) : Decidable (node.Placed text) :=
  decidable_of_iff
    ((Boundary text node.start ∧ Boundary text node.stop ∧ node.start ≤ node.stop) ∧
      ((∀ child ∈ node.children, child.range.Within node.range) ∧
        node.children.Pairwise fun left right => left.stop ≤ right.start) ∧
      ((node.kind.isExtra = true → node.role = none ∧ node.children.isEmpty = true) ∧
        (node.kind = .callExpression → node.IsCall) ∧
        (node.kind = .labeledStatement → node.IsLabeled)) ∧
      ((node.kind = .arguments → node.Delimited text '(' ')') ∧
        (node.kind = .templateString → node.Delimited text '`' '`') ∧
        (node.kind = .string →
          node.Delimited text '"' '"' ∨ node.Delimited text '\'' '\'')))
    ⟨fun ⟨⟨first, last, forward⟩, ⟨inside, ordered⟩, ⟨extra, call, labeled⟩, arguments, template,
        string⟩ =>
        ⟨first, last, forward, inside, ordered, extra, call, labeled, arguments, template, string⟩,
      fun placed =>
        ⟨⟨placed.first, placed.last, placed.forward⟩, ⟨placed.inside, placed.ordered⟩,
          ⟨placed.extra, placed.call, placed.labeled⟩, placed.arguments, placed.template,
          placed.string⟩⟩

/-- Every node of the tree lies over the text the way the grammar prescribes. -/
def WellFormed (text : List Char) (tree : Node) : Prop :=
  ∀ node ∈ tree.preorder, node.Placed text

instance (text : List Char) (tree : Node) : Decidable (tree.WellFormed text) :=
  inferInstanceAs (Decidable (∀ node ∈ tree.preorder, node.Placed text))

theorem WellFormed.placed {text : List Char} {tree : Node} (wellFormed : tree.WellFormed text) :
    tree.Placed text :=
  wellFormed tree (mem_preorder_self tree)

theorem WellFormed.child {text : List Char} {tree child : Node}
    (wellFormed : tree.WellFormed text) (member : child ∈ tree.children) :
    child.WellFormed text :=
  fun node below => wellFormed node (mem_preorder_of_child member below)

/-- The nodes of a well-formed tree are well-formed and lie inside it. -/
theorem WellFormed.of_mem_preorder {text : List Char} {tree : Node} :
    tree.WellFormed text → ∀ node ∈ tree.preorder,
      node.WellFormed text ∧ node.range.Within tree.range := by
  induction tree using Node.induction with
  | step kind role range children inductionHypothesis =>
      intro wellFormed node member
      rw [preorder] at member
      rcases List.mem_cons.mp member with rfl | below
      · exact ⟨wellFormed, Nat.le_refl _, Nat.le_refl _⟩
      · obtain ⟨child, isChild, inChild⟩ := mem_preorderAll.mp below
        obtain ⟨nodeWellFormed, within⟩ :=
          inductionHypothesis child isChild (wellFormed.child isChild) node inChild
        have inside := wellFormed.placed.inside child isChild
        exact ⟨nodeWellFormed, Nat.le_trans inside.1 within.1, Nat.le_trans within.2 inside.2⟩

/-! ## Delimiters -/

namespace Delimited

variable {text : List Char} {opening closing : Char} {node : Node}

/-- The text of a delimited node is its delimiters with something between them. -/
theorem exists_inner (delimited : node.Delimited text opening closing) :
    ∃ inner, Text.slice text node.range = opening :: (inner ++ [closing]) := by
  obtain ⟨long, opens, closes, _⟩ := delimited
  cases sliced : Text.slice text node.range with
  | nil => simp [sliced] at opens
  | cons c rest =>
      rw [sliced] at long opens closes
      obtain rfl : c = opening := by simpa using opens
      rcases List.eq_nil_or_concat rest with rfl | ⟨inner, last, rfl⟩
      · simp at long
      · refine ⟨inner, ?_⟩
        have same : last = closing := by
          simpa [List.getLast?_cons, List.getLast?_append] using closes
        simp [same]

/-- The text around and inside a delimited node. -/
theorem exists_around (delimited : node.Delimited text opening closing)
    (placed : node.Placed text) :
    ∃ before inner after, Text.slice text node.range = opening :: (inner ++ [closing]) ∧
      text = before ++ (opening :: (inner ++ [closing]) ++ after) ∧
      Text.byteLength before = node.start ∧
      node.start + Text.byteLength (opening :: (inner ++ [closing])) = node.stop := by
  obtain ⟨inner, sliced⟩ := delimited.exists_inner
  have found : Text.slice? text ⟨node.start, node.stop⟩ =
      some (opening :: (inner ++ [closing])) := by
    rw [Text.slice?_of_boundaries placed.first placed.last placed.forward]
    exact congrArg some sliced
  obtain ⟨before, after, whole, start, stop⟩ := Text.slice?_eq_some_iff.mp found
  exact ⟨before, inner, after, sliced, whole, start, stop⟩

/-- Delimiters of one byte can be cut off: what is between them is a slice of its own. -/
theorem exists_slice_inner (delimited : node.Delimited text opening closing)
    (placed : node.Placed text) (openingSize : opening.utf8Size = 1)
    (closingSize : closing.utf8Size = 1) :
    ∃ inner, Text.slice text node.range = opening :: (inner ++ [closing]) ∧
      Text.slice text ⟨node.start + 1, node.stop - 1⟩ = inner ∧
      Boundary text (node.start + 1) ∧ Boundary text (node.stop - 1) ∧
      node.start + 2 ≤ node.stop := by
  obtain ⟨before, inner, after, sliced, whole, start, stop⟩ := delimited.exists_around placed
  simp only [Text.byteLength_cons, Text.byteLength_append, Text.byteLength_nil, openingSize,
    closingSize] at stop
  have middle : Text.slice? text ⟨node.start + 1, node.stop - 1⟩ = some inner := by
    refine Text.slice?_eq_some_iff.mpr ⟨before ++ [opening], closing :: after, ?_, ?_, ?_⟩
    · simp [whole]
    · simp [start, openingSize]
    · omega
  obtain ⟨first, last, _⟩ := Text.boundaries_of_slice? middle
  exact ⟨inner, sliced, by simp [Text.slice, middle], first, last, by omega⟩

/-- Delimiters of one byte are the slices at both ends. -/
theorem slice_ends (delimited : node.Delimited text opening closing)
    (placed : node.Placed text) (openingSize : opening.utf8Size = 1)
    (closingSize : closing.utf8Size = 1) :
    Text.slice text ⟨node.start, node.start + 1⟩ = [opening] ∧
      Text.slice text ⟨node.stop - 1, node.stop⟩ = [closing] := by
  obtain ⟨before, inner, after, _, whole, start, stop⟩ := delimited.exists_around placed
  simp only [Text.byteLength_cons, Text.byteLength_append, Text.byteLength_nil, openingSize,
    closingSize] at stop
  have opens : text = before ++ ([opening] ++ (inner ++ ([closing] ++ after))) := by simp [whole]
  have closes : text = (before ++ ([opening] ++ inner)) ++ ([closing] ++ after) := by simp [whole]
  constructor
  · rw [opens]
    exact Text.slice_eq_of_append start (by simp [openingSize])
  · rw [closes]
    refine Text.slice_eq_of_append ?_ ?_
    · simp only [Text.byteLength_append, Text.byteLength_cons, Text.byteLength_nil, openingSize]
      omega
    · simp only [Text.byteLength_cons, Text.byteLength_nil, closingSize]
      omega

end Delimited

/-! ## Nodes in a row -/

/-- Nodes stand in order between two places of the text. -/
inductive Laid (text : List Char) (stop : Nat) : Nat → List Node → Prop where
  | nil {start : Nat} (first : Boundary text start) (last : Boundary text stop)
      (forward : start ≤ stop) : Laid text stop start []
  | cons {start : Nat} {node : Node} {rest : List Node} (first : Boundary text start)
      (behind : start ≤ node.start) (atNode : Boundary text node.start)
      (forward : node.start ≤ node.stop) (more : Laid text stop node.stop rest) :
      Laid text stop start (node :: rest)

namespace Laid

variable {text : List Char} {start stop : Nat} {nodes : List Node}

theorem first (laid : Laid text stop start nodes) : Boundary text start := by
  cases laid <;> assumption

theorem last (laid : Laid text stop start nodes) : Boundary text stop := by
  induction laid <;> assumption

theorem le (laid : Laid text stop start nodes) : start ≤ stop := by
  induction laid <;> omega

theorem bounds (laid : Laid text stop start nodes) :
    ∀ node ∈ nodes, start ≤ node.start ∧ node.stop ≤ stop := by
  induction laid with
  | nil => simp
  | @cons start node rest _ behind _ forward more inductionHypothesis =>
      have atEnd := more.le
      intro other member
      rcases List.mem_cons.mp member with rfl | inRest
      · omega
      · have inside := inductionHypothesis other inRest
        omega

/-- The end can be moved back. -/
theorem widen {further : Nat} (laid : Laid text stop start nodes) (last : Boundary text further)
    (behind : stop ≤ further) : Laid text further start nodes := by
  induction laid with
  | nil first _ forward => exact .nil first last (Nat.le_trans forward behind)
  | cons first before atNode forward _ inductionHypothesis =>
      exact .cons first before atNode forward inductionHypothesis

/-- What follows one of the nodes is laid behind it. -/
theorem behind {before after : List Node} {node : Node}
    (laid : Laid text stop start (before ++ node :: after)) : Laid text stop node.stop after := by
  induction before generalizing start with
  | nil =>
      cases laid with
      | cons _ _ _ _ more => exact more
  | cons first rest inductionHypothesis =>
      cases laid with
      | cons _ _ _ _ more => exact inductionHypothesis more

/-- Nodes of a well-formed tree that stand in order are laid between any two places around them. -/
theorem of_ordered (first : Boundary text start) (last : Boundary text stop)
    (forward : start ≤ stop) (placed : ∀ node ∈ nodes, node.Placed text)
    (ordered : nodes.Pairwise fun left right => left.stop ≤ right.start)
    (within : ∀ node ∈ nodes, start ≤ node.start ∧ node.stop ≤ stop) :
    Laid text stop start nodes := by
  induction nodes generalizing start with
  | nil => exact .nil first last forward
  | cons node rest inductionHypothesis =>
      rw [List.pairwise_cons] at ordered
      have atNode := placed node List.mem_cons_self
      obtain ⟨behind, before⟩ := within node List.mem_cons_self
      refine .cons first behind atNode.first atNode.forward (inductionHypothesis atNode.last before
        (fun other member => placed other (List.mem_cons_of_mem _ member)) ordered.2 ?_)
      intro other member
      exact ⟨ordered.1 other member, (within other (List.mem_cons_of_mem _ member)).2⟩

end Laid

/-- The children of a well-formed node are laid over its text. -/
theorem WellFormed.laid {text : List Char} {node : Node} (wellFormed : node.WellFormed text) :
    Laid text node.stop node.start node.children :=
  .of_ordered wellFormed.placed.first wellFormed.placed.last wellFormed.placed.forward
    (fun _ member => (wellFormed.child member).placed) wellFormed.placed.ordered
    wellFormed.placed.inside

/-- A well-formed node is laid over its own text. -/
theorem WellFormed.laid_self {text : List Char} {node : Node} (wellFormed : node.WellFormed text) :
    Laid text node.stop node.start [node] :=
  have placed := wellFormed.placed
  .cons placed.first (Nat.le_refl _) placed.first placed.forward
    (.nil placed.last placed.last (Nat.le_refl _))

/-- The children of a node with delimiters of one byte are laid between them. -/
theorem WellFormed.laid_between {text : List Char} {node : Node} {opening closing : Char}
    (wellFormed : node.WellFormed text) (delimited : node.Delimited text opening closing)
    (openingSize : opening.utf8Size = 1) (closingSize : closing.utf8Size = 1) :
    Laid text (node.stop - 1) (node.start + 1) node.children := by
  obtain ⟨_, _, _, opens, closes, long⟩ :=
    delimited.exists_slice_inner wellFormed.placed openingSize closingSize
  refine .of_ordered opens closes (by omega) (fun child member => (wellFormed.child member).placed)
    wellFormed.placed.ordered fun child member => ?_
  have between := delimited.between child member
  omega

/-! ## Parts of calls and labelled statements -/

/-- Two of a node's children are its values; the others, before, between and behind them, are
comments. -/
structure TwoValues (node first second : Node) (before between after : List Node) : Prop where
  children : node.children = before ++ first :: (between ++ second :: after)
  extras : ∀ child ∈ before ++ (between ++ after), child.kind.isExtra = true

theorem exists_twoValues {node first second : Node} (two : node.values = [first, second]) :
    ∃ before between after, node.TwoValues first second before between after := by
  obtain ⟨before, rest, children, extraBefore, _, two⟩ := List.filter_eq_cons_iff.mp two
  obtain ⟨between, after, rfl, extraBetween, _, none⟩ := List.filter_eq_cons_iff.mp two
  refine ⟨before, between, after, children, ?_⟩
  intro child member
  simp only [List.mem_append] at member
  rcases member with inBefore | inBetween | inAfter
  · simpa using extraBefore child inBefore
  · simpa using extraBetween child inBetween
  · simpa using List.filter_eq_nil_iff.mp none child inAfter

/-- The comments around the two values of a well-formed node are leaves that play no part. -/
theorem TwoValues.leaf {text : List Char} {node first second : Node}
    {before between after : List Node} (two : node.TwoValues first second before between after)
    (wellFormed : node.WellFormed text) (child : Node)
    (member : child ∈ before ∨ child ∈ between ∨ child ∈ after) :
    (child.kind.isExtra = true ∧ child.children = []) ∧ child.role = none := by
  have isExtra : child.kind.isExtra = true := two.extras child (by simpa using member)
  have below : child ∈ node.children := by
    rw [two.children]
    simp only [List.mem_append, List.mem_cons]
    grind
  obtain ⟨noRole, empty⟩ := (wellFormed.child below).placed.extra isExtra
  exact ⟨⟨isExtra, List.isEmpty_iff.mp empty⟩, noRole⟩

section Parts

variable {text : List Char} {node : Node}

theorem mem_children_of_child? {part : Role} {child : Node} (found : node.child? part = some child) :
    child ∈ node.children :=
  List.mem_of_find?_eq_some found

theorem mem_children_of_mem_values {child : Node} (member : child ∈ node.values) :
    child ∈ node.children :=
  (List.mem_filter.mp member).1

/-- A part is looked for among the values: comments play none. -/
theorem WellFormed.child?_eq_find?_values (wellFormed : node.WellFormed text) (part : Role) :
    node.child? part = node.values.find? fun child => child.role == some part := by
  have noRole : ∀ child ∈ node.children, child.kind.isExtra = true → child.role = none :=
    fun child member isExtra => ((wellFormed.child member).placed.extra isExtra).1
  unfold child? values
  generalize node.children = children at noRole
  induction children with
  | nil => rfl
  | cons child rest inductionHypothesis =>
      have atRest := inductionHypothesis fun other member =>
        noRole other (List.mem_cons_of_mem _ member)
      by_cases isExtra : child.kind.isExtra = true
      · have none := noRole child List.mem_cons_self isExtra
        simp [isExtra, none, atRest]
      · simp only [List.find?_cons, List.filter_cons, isExtra, Bool.not_false, ↓reduceIte]
        rw [atRest]

/-- The parts of a call: a function and arguments with nothing but comments around them. -/
theorem WellFormed.exists_call_parts (wellFormed : node.WellFormed text)
    (isCall : node.kind = .callExpression) :
    ∃ function arguments, node.child? .function = some function ∧
      node.child? .arguments = some arguments ∧ node.values = [function, arguments] ∧
      function.start < function.stop ∧ arguments.start < arguments.stop ∧
      (arguments.kind = .arguments ∨ arguments.kind = .templateString) := by
  obtain ⟨roles, covering⟩ := wellFormed.placed.call isCall
  obtain ⟨function, rest, two, isFunction, roles⟩ := List.map_eq_cons_iff.mp roles
  obtain ⟨arguments, rest, rfl, isArguments, roles⟩ := List.map_eq_cons_iff.mp roles
  obtain rfl := List.map_eq_nil_iff.mp roles
  have ofFunction := covering function (by simp [two])
  have ofArguments := covering arguments (by simp [two])
  refine ⟨function, arguments, ?_, ?_, two, ofFunction.1, ofArguments.1,
    ofArguments.2 isArguments⟩
  · rw [wellFormed.child?_eq_find?_values, two]
    simp [isFunction]
  · rw [wellFormed.child?_eq_find?_values, two]
    simp [isFunction, isArguments]

/-- The values of a call are its function and its arguments. -/
theorem WellFormed.values_call {function arguments : Node} (wellFormed : node.WellFormed text)
    (isCall : node.kind = .callExpression) (functionPart : node.child? .function = some function)
    (argumentsPart : node.child? .arguments = some arguments) :
    node.values = [function, arguments] := by
  obtain ⟨first, second, firstPart, secondPart, two, _⟩ := wellFormed.exists_call_parts isCall
  obtain rfl := Option.some.inj (firstPart.symm.trans functionPart)
  obtain rfl := Option.some.inj (secondPart.symm.trans argumentsPart)
  exact two

/-- The arguments of a call are a list in parentheses, unless they are a template literal. -/
theorem WellFormed.kind_arguments {arguments : Node} (wellFormed : node.WellFormed text)
    (isCall : node.kind = .callExpression) (argumentsPart : node.child? .arguments = some arguments)
    (isList : arguments.kind ≠ .templateString) : arguments.kind = .arguments := by
  obtain ⟨_, found, _, foundPart, _, _, _, kinds⟩ := wellFormed.exists_call_parts isCall
  obtain rfl := Option.some.inj (foundPart.symm.trans argumentsPart)
  exact kinds.resolve_right isList

/-- The parts of a labelled statement: a name and a statement with nothing but comments around
them. -/
theorem WellFormed.exists_label_parts (wellFormed : node.WellFormed text)
    (isLabeled : node.kind = .labeledStatement) :
    ∃ label body, node.child? .label = some label ∧ node.child? .body = some body ∧
      node.values = [label, body] ∧ label.start < label.stop ∧
      label.kind = .statementIdentifier ∧ label.children = [] := by
  obtain ⟨roles, named⟩ := wellFormed.placed.labeled isLabeled
  obtain ⟨label, rest, two, isLabel, roles⟩ := List.map_eq_cons_iff.mp roles
  obtain ⟨body, rest, rfl, isBody, roles⟩ := List.map_eq_cons_iff.mp roles
  obtain rfl := List.map_eq_nil_iff.mp roles
  obtain ⟨covers, kind, leaf⟩ := named label (by simp [two]) isLabel
  refine ⟨label, body, ?_, ?_, two, covers, kind, List.isEmpty_iff.mp leaf⟩
  · rw [wellFormed.child?_eq_find?_values, two]
    simp [isLabel]
  · rw [wellFormed.child?_eq_find?_values, two]
    simp [isLabel, isBody]

end Parts

end Node

end PatternScript.Script
