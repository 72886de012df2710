import PatternScript.Proofs.Edits.Blocks
import PatternScript.Proofs.Transpile.Weaving

/-!
Contract: rendering the replacements of a walk is rewriting the tree.

The replacements of a tree stand together among all replacements: what comes before them starts
before the tree or wraps it, and what comes behind them starts behind it. Writing the range of the
tree therefore writes just these, each of them once, and the text is the one that the rewriter
builds from the tree.

Owns: the induction over the tree, for the text and for the replacements that are made.
Does not own: the end of a program.
-/

namespace PatternScript

open Script Rewriting Rewritten Edits
open Text (Boundary)

namespace Pass

/-! ## One node, walked and rewritten -/

section Step

variable {context : PassContext} {ancestors : List Node} {node : Node} {counters : WidgetCounters}

theorem explore_of_descend {found : Findings}
    (looked : look context ancestors node counters = (.descend, found)) :
    explore context ancestors node counters =
      found.append (exploreAll context (node :: ancestors) node.children found.counters) := by
  obtain ⟨kind, role, range, children⟩ := node
  rw [explore]
  simp only [looked, Node.children]

theorem explore_of_skip {found : Findings}
    (looked : look context ancestors node counters = (.skip, found)) :
    explore context ancestors node counters = found := by
  obtain ⟨kind, role, range, children⟩ := node
  rw [explore]
  simp only [looked]

theorem rewrite_of_fold {text : List Char} {counted : WidgetCounters}
    (manner : Manner.of context ancestors node counters = (.fold text, counted)) :
    rewrite context ancestors node counters = (.mk node text [], counted) := by
  obtain ⟨kind, role, range, children⟩ := node
  rw [rewrite]
  simp only [manner]

theorem rewrite_of_build {text : List Rewritten → List Char} {counted : WidgetCounters}
    (manner : Manner.of context ancestors node counters = (.build text, counted)) :
    rewrite context ancestors node counters =
      (let below := rewriteAll context (node :: ancestors) node.children counted
      (.mk node (text below.1) below.1, below.2)) := by
  obtain ⟨kind, role, range, children⟩ := node
  rw [rewrite]
  simp only [manner, Node.children]

end Step

theorem exploreAll_singleton (context : PassContext) (ancestors : List Node) (node : Node)
    (counters : WidgetCounters) :
    exploreAll context ancestors [node] counters = explore context ancestors node counters := by
  simp [exploreAll, Findings.append]

/-- A node that stands alone in its place. -/
theorem weave_singleton (context : PassContext) (ancestors : List Node) (node : Node)
    (counters : WidgetCounters) :
    weave context.source node.start node.stop
        (rewriteAll context ancestors [node] counters).1 =
      (rewrite context ancestors node counters).1.text := by
  simp [rewriteAll, weave, node_rewrite, SourceText.slice]

/-- The walk and the rewriter count alike. -/
theorem counters_rewriteAll {context : PassContext} {ancestors nodes : List Node}
    (each : ∀ node ∈ nodes, ∀ counters,
      (rewrite context ancestors node counters).2 =
        (explore context ancestors node counters).counters) (counters : WidgetCounters) :
    (rewriteAll context ancestors nodes counters).2 =
      (exploreAll context ancestors nodes counters).counters := by
  induction nodes generalizing counters with
  | nil => rfl
  | cons node rest inductionHypothesis =>
      rw [rewriteAll_cons, exploreAll, each node List.mem_cons_self,
        inductionHypothesis fun other member => each other (List.mem_cons_of_mem _ member)]
      rfl

theorem counters_rewrite {context : PassContext} (node : Node) :
    node.WellFormed context.source.chars → ∀ (ancestors : List Node) (counters : WidgetCounters),
      (rewrite context ancestors node counters).2 =
        (explore context ancestors node counters).counters := by
  induction node using Node.induction with
  | step kind role range children inductionHypothesis =>
      intro wellFormed ancestors counters
      have below : ∀ counters,
          (rewriteAll context (.mk kind role range children :: ancestors) children counters).2 =
            (exploreAll context (.mk kind role range children :: ancestors) children
              counters).counters :=
        counters_rewriteAll fun child member =>
          inductionHypothesis child member (wellFormed.child member) _
      have recorded := recorded_look wellFormed ancestors counters
      cases looked : look context ancestors (.mk kind role range children) counters with
      | mk action found =>
      cases manner : Manner.of context ancestors (.mk kind role range children) counters with
      | mk made counted =>
      rw [looked, manner] at recorded
      cases recorded with
      | folded same =>
          rw [rewrite_of_fold manner, explore_of_skip looked, same]
      | nothing same | identified same | awaiting same | naming same =>
          rw [rewrite_of_build manner, explore_of_descend looked, same]
          exact below _

/-! ## Replacements of a part of the program among all -/

/-- Where the replacements of some nodes stand: those before them start before the nodes or wrap
them, those behind start behind the end. A replacement that is being written comes before. -/
structure Amid (edits : Edits) (nodes : List Node) (stop : Nat) (owner : Option EditKey)
    (before block after : List Edit) : Prop where
  entries : edits.entries = before ++ (block ++ after)
  owned : ∀ key, owner = some key → ∃ edit ∈ before, edit.key = key
  earlier : ∀ edit ∈ before, ∀ node ∈ nodes, edit.key.before node.key = true
  later : ∀ edit ∈ after, stop ≤ edit.key.start

/-- The range of a node is written as the rewriter says, and each of its replacements is made once,
wherever they stand. -/
def Renders (context : PassContext) (edits : Edits) (node : Node) : Prop :=
  ∀ (ancestors : List Node) (counters : WidgetCounters) (owner : Option EditKey)
    (before after : List Edit) (depth : Nat),
    Amid edits [node] node.stop owner before (explore context ancestors node counters).edits after →
      (explore context ancestors node counters).edits.length ≤ depth →
        traceFrom context.source.chars (traceUpTo edits context.source.chars depth) node.stop owner
            node.start (explore context ancestors node counters).edits =
          .ok ⟨(rewrite context ancestors node counters).1.text,
            (explore context ancestors node counters).edits⟩

section Writing

variable {context : PassContext} {edits : Edits} {ancestors : List Node} {owner : Option EditKey}
  {before after : List Edit} {depth : Nat} {counters : WidgetCounters}

/-- Nodes in a row are written one after the other. -/
theorem traceFrom_exploreAll {nodes : List Node} {start stop : Nat}
    (wellFormed : ∀ node ∈ nodes, node.WellFormed context.source.chars)
    (each : ∀ node ∈ nodes, Renders context edits node)
    (laid : Node.Laid context.source.chars stop start nodes)
    (amid : Amid edits nodes stop owner before
      (exploreAll context ancestors nodes counters).edits after)
    (deep : (exploreAll context ancestors nodes counters).edits.length ≤ depth) :
    traceFrom context.source.chars (traceUpTo edits context.source.chars depth) stop owner start
        (exploreAll context ancestors nodes counters).edits =
      .ok ⟨weave context.source start stop (rewriteAll context ancestors nodes counters).1,
        (exploreAll context ancestors nodes counters).edits⟩ := by
  induction laid generalizing before counters with
  | nil first last forward => exact traceCopy_eq_ok first last forward
  | @cons start node rest first behind atNode forward more inductionHypothesis =>
      have atEnd := more.le
      have nodeWellFormed := wellFormed node List.mem_cons_self
      have restWellFormed := fun other member =>
        wellFormed other (List.mem_cons_of_mem node member)
      rw [exploreAll] at amid deep ⊢
      simp only [Findings.append] at amid deep ⊢
      have covered := fun edit member =>
        (covered_explore node nodeWellFormed ancestors counters edit member).1
      have restBehind : ∀ edit ∈ (exploreAll context ancestors rest
          (explore context ancestors node counters).counters).edits,
          node.stop ≤ edit.key.start ∧ Boundary context.source.chars edit.key.start := by
        intro edit member
        have inside := covered_exploreAll restWellFormed more _ edit member
        exact ⟨inside.within.1, inside.first⟩
      simp only [List.length_append] at deep
      -- The node itself, with the text before it.
      have writtenNode := each node List.mem_cons_self ancestors counters owner before
        ((exploreAll context ancestors rest
          (explore context ancestors node counters).counters).edits ++ after) depth
        { entries := by simpa using amid.entries
          owned := amid.owned
          earlier := fun edit member other isNode => by
            obtain rfl := List.mem_singleton.mp isNode
            exact amid.earlier edit member other List.mem_cons_self
          later := fun edit member => by
            rcases List.mem_append.mp member with inRest | inAfter
            · exact (restBehind edit inRest).1
            · exact Nat.le_trans atEnd (amid.later edit inAfter) } (by omega)
      have writtenFirst := traceFrom_advance first atNode nodeWellFormed.placed.last behind forward
        (fun edit member => ⟨(covered edit member).within.1, (covered edit member).first⟩)
        writtenNode
      -- The nodes behind it.
      have writtenRest := @inductionHypothesis
        (before ++ (explore context ancestors node counters).edits)
        (explore context ancestors node counters).counters restWellFormed
        (fun other member => each other (List.mem_cons_of_mem _ member))
        { entries := by simpa using amid.entries
          owned := fun key isOwner => (amid.owned key isOwner).imp fun edit found =>
            ⟨List.mem_append_left _ found.1, found.2⟩
          earlier := fun edit member other isNode => by
            rcases List.mem_append.mp member with inBefore | inNode
            · exact amid.earlier edit inBefore other (List.mem_cons_of_mem _ isNode)
            · have covers := (covered edit inNode).covers
              have within := (covered edit inNode).within.2
              have apart := (more.bounds other isNode).1
              simp only [Edit.range, Node.stop, Node.start] at within apart
              rw [EditKey.before_iff]
              simp only [Node.key, Node.start]
              omega
          later := amid.later } (by omega)
      rw [traceFrom_append nodeWellFormed.placed.last more.last atEnd first
        (Nat.le_trans behind forward) (fun edit member =>
          ⟨Nat.lt_of_lt_of_le (covered edit member).covers (covered edit member).within.2,
            (covered edit member).within.2, (covered edit member).last⟩) restBehind writtenFirst
        writtenRest, rewriteAll_cons, ← counters_rewrite node nodeWellFormed]
      simp [Traced.append, weave, node_rewrite, SourceText.slice]

/-- A replacement inside a node is not the one that is being written around it. -/
theorem Amid.ne_owner {node : Node} {stop : Nat} {block : List Edit} {key : EditKey}
    (amid : Amid edits [node] stop owner before block after) (starts : node.start ≤ key.start)
    (stops : key.stop ≤ node.stop) : some key ≠ owner := by
  intro isOwner
  obtain ⟨edit, member, same⟩ := amid.owned key isOwner.symm
  have ordered := amid.earlier edit member node List.mem_cons_self
  rw [same] at ordered
  have ordered' := EditKey.before_of_within ordered starts stops
  rw [EditKey.before_irrefl] at ordered'
  contradiction

/-- Where the replacements of a node stand, those of its children do. -/
theorem Amid.children {node : Node} {block : List Edit}
    (wellFormed : node.WellFormed context.source.chars)
    (amid : Amid edits [node] node.stop owner before block after) :
    Amid edits node.children node.stop owner before block after :=
  { amid with
    earlier := fun edit member child below =>
      have inside := wellFormed.placed.inside child below
      EditKey.before_of_within (amid.earlier edit member node List.mem_cons_self) inside.1
        inside.2 }

/-- A source part of a replacement is written with the nodes in it. -/
theorem traceUpTo_part {node : Node} {own : Edit} {nodes : List Node} {range : ByteRange}
    {front back : List Edit}
    (wellFormed : ∀ node ∈ nodes, node.WellFormed context.source.chars)
    (each : ∀ node ∈ nodes, Renders context edits node)
    (laid : Node.Laid context.source.chars range.stop range.start nodes)
    (amid : Amid edits [node] node.stop owner before
      (own :: (front ++ ((exploreAll context ancestors nodes counters).edits ++ back))) after)
    (within : range.Within node.range) (starts : own.key.start ≤ range.start)
    (wraps : ∀ child ∈ nodes, own.key.before child.key = true)
    (inFront : ∀ edit ∈ front, edit.key.start < range.start)
    (inBack : ∀ edit ∈ back, range.stop ≤ edit.key.start)
    (deep : (exploreAll context ancestors nodes counters).edits.length ≤ depth) :
    traceUpTo edits context.source.chars (depth + 1) range (some own.key) =
      .ok ⟨weave context.source range.start range.stop
        (rewriteAll context ancestors nodes counters).1,
        (exploreAll context ancestors nodes counters).edits⟩ := by
  have inNode := within
  simp only [ByteRange.Within] at inNode
  have entries : edits.entries = (before ++ own :: front) ++
      ((exploreAll context ancestors nodes counters).edits ++ (back ++ after)) := by
    simp [amid.entries]
  have behind : ∀ edit ∈ back ++ after, range.stop ≤ edit.key.start := by
    intro edit member
    rcases List.mem_append.mp member with atBack | atAfter
    · exact inBack edit atBack
    · exact Nat.le_trans within.2 (amid.later edit atAfter)
  have written := traceFrom_exploreAll wellFormed each laid
    { entries := entries
      owned := fun key isOwner => ⟨own, by simp, Option.some.inj isOwner⟩
      earlier := fun edit member child isNode => by
        have bounds := laid.bounds child isNode
        simp only [List.mem_append, List.mem_cons] at member
        rcases member with inBefore | rfl | atFront
        · refine EditKey.before_of_within (amid.earlier edit inBefore node List.mem_cons_self) ?_ ?_
          · exact Nat.le_trans within.1 bounds.1
          · exact Nat.le_trans bounds.2 within.2
        · exact wraps child isNode
        · exact EditKey.before_iff.mpr (.inl (Nat.lt_of_lt_of_le (inFront edit atFront) bounds.1))
      later := behind } deep
  have inside : ∀ edit ∈ (exploreAll context ancestors nodes counters).edits,
      range.start ≤ edit.key.start := fun edit member =>
    (covered_exploreAll wellFormed laid counters edit member).within.1
  rcases Nat.lt_or_ge range.start range.stop with covers | empty
  · refine traceUpTo_eq_ok_of_block entries ?_ inside behind written
    -- What starts in the part without belonging to it wraps the node or is being written.
    intro edit member notBefore
    simp only [List.mem_append, List.mem_cons] at member
    rcases member with inBefore | rfl | atFront
    · have ordered := amid.earlier edit inBefore node List.mem_cons_self
      rw [EditKey.before_iff] at ordered
      simp only [Node.key, Node.start, Node.stop] at ordered
      exact ⟨by omega, .inr (.inr (by omega))⟩
    · exact ⟨by omega, .inr (.inl rfl)⟩
    · have starts := inFront edit atFront
      omega
  · obtain ⟨first, last⟩ := range
    obtain rfl : first = last := Nat.le_antisymm laid.le empty
    rw [← written, traceFrom_stop laid.first inside, traceUpTo_empty laid.first]

/-- A source part that is one node is written as the node is. -/
theorem traceUpTo_node {node part : Node} {own : Edit} {back : List Edit}
    (wellFormed : part.WellFormed context.source.chars) (renders : Renders context edits part)
    (amid : Amid edits [node] node.stop owner before
      (own :: ((explore context ancestors part counters).edits ++ back)) after)
    (within : part.range.Within node.range) (wraps : own.key.before part.key = true)
    (inBack : ∀ edit ∈ back, part.stop ≤ edit.key.start)
    (deep : (explore context ancestors part counters).edits.length ≤ depth) :
    traceUpTo edits context.source.chars (depth + 1) part.range (some own.key) =
      .ok ⟨(rewrite context ancestors part counters).1.text,
        (explore context ancestors part counters).edits⟩ := by
  have starts : own.key.start ≤ part.start := by
    rw [EditKey.before_iff] at wraps
    simp only [Node.key] at wraps
    omega
  rw [← exploreAll_singleton] at amid deep ⊢
  rw [← weave_singleton]
  exact @traceUpTo_part _ _ _ _ _ _ _ _ _ _ _ _ [] _ (by simpa using wellFormed)
    (by simpa using renders) wellFormed.laid_self amid within starts (by simpa using wraps) (by simp)
    inBack deep

/-- What is found in a node starts before the end of the node. -/
theorem start_lt_of_explore {node : Node} (wellFormed : node.WellFormed context.source.chars)
    {edit : Edit} (member : edit ∈ (explore context ancestors node counters).edits) :
    edit.key.start < node.stop := by
  have covered := (covered_explore node wellFormed ancestors counters edit member).1
  exact Nat.lt_of_lt_of_le covered.covers covered.within.2

/-- What is found below a node starts before the end of the node. -/
theorem start_lt_of_below {node : Node} (wellFormed : node.WellFormed context.source.chars)
    {edit : Edit} (member : edit ∈ (exploreAll context ancestors node.children counters).edits) :
    edit.key.start < node.stop := by
  have covered := covered_exploreAll (fun child member => wellFormed.child member) wellFormed.laid _
    edit member
  exact Nat.lt_of_lt_of_le covered.covers covered.within.2

/-- The replacement of a whole node is made, and those below the node only inside its parts. -/
theorem traceFrom_whole {node : Node} {emission : Emission} {below : List Edit}
    {replaced : List Char} (wellFormed : node.WellFormed context.source.chars)
    (covers : node.start < node.stop)
    (amid : Amid edits [node] node.stop owner before (⟨node.key, emission⟩ :: below) after)
    (nested : ∀ edit ∈ below, edit.key.start < node.stop)
    (written : writeEmission (traceUpTo edits context.source.chars depth).plain node.key emission =
      .ok replaced) :
    traceFrom context.source.chars (traceUpTo edits context.source.chars depth) node.stop owner
        node.start (⟨node.key, emission⟩ :: below) =
      .ok ⟨replaced, ⟨node.key, emission⟩ ::
        appliedIn (traceUpTo edits context.source.chars depth) node.key emission.sources⟩ := by
  have behind : traceFrom context.source.chars (traceUpTo edits context.source.chars depth)
      node.stop owner node.stop [] = .ok ⟨[], []⟩ := by
    rw [traceFrom, traceCopy_eq_ok wellFormed.placed.last wellFormed.placed.last (Nat.le_refl _),
      Text.slice_self]
  have made := @traceFrom_cons _ _ _ owner ⟨node.key, emission⟩ below [] _ _ wellFormed.placed.first
    covers (Nat.le_refl _) (amid.ne_owner (Nat.le_refl _) (Nat.le_refl _)) nested written behind
  simp only [List.append_nil] at made
  exact made

/-- A node that is replaced as a whole. -/
theorem traceFrom_folded {node : Node} {emission : Emission} {text : List Char}
    (wellFormed : node.WellFormed context.source.chars) (covers : node.start < node.stop)
    (parts : ∀ range ∈ emission.sources, PartOf context.source.chars node range)
    (writes : ∀ write : Edits.RangeWriter,
      (∀ range ∈ emission.sources, write range node.key = .ok (context.source.slice range)) →
        Edits.writeEmission write node.key emission = .ok text)
    (amid : Amid edits [node] node.stop owner before [⟨node.key, emission⟩] after) :
    traceFrom context.source.chars (traceUpTo edits context.source.chars (depth + 1)) node.stop
        owner node.start [⟨node.key, emission⟩] = .ok ⟨text, [⟨node.key, emission⟩]⟩ := by
  -- Nothing inside the node is replaced.
  have written : ∀ range ∈ emission.sources,
      traceUpTo edits context.source.chars (depth + 1) range (some node.key) =
        .ok ⟨context.source.slice range, []⟩ := by
    intro range isSource
    have part := parts range isSource
    have amid' : Amid edits [node] node.stop owner before (⟨node.key, emission⟩ ::
        ([] ++ ((exploreAll context [] [] []).edits ++ []))) after := by
      simpa [exploreAll] using amid
    exact traceUpTo_part (by simp) (by simp)
      (.nil part.first part.last (Nat.le_of_lt part.covers)) amid' part.within
      part.within.1 (by simp) (by simp) (by simp) (by simp [exploreAll])
  have applied : appliedIn (traceUpTo edits context.source.chars (depth + 1)) node.key
      emission.sources = [] := by
    simp only [appliedIn, List.flatMap_eq_nil_iff]
    intro range isSource
    simp [TracedWriter.applied, written range isSource]
  have replaced : writeEmission (traceUpTo edits context.source.chars (depth + 1)).plain node.key
      emission = .ok text := by
    refine writes _ fun range isSource => ?_
    rw [TracedWriter.plain, written range isSource]
    rfl
  rw [traceFrom_whole wellFormed covers amid (by simp) replaced, applied]

/-- Below a call something is found in its function first, and then between the parentheses. -/
theorem edits_exploreAll_call {node function arguments : Node}
    (wellFormed : node.WellFormed context.source.chars) (isCall : node.kind = .callExpression)
    (functionPart : node.child? .function = some function)
    (argumentsPart : node.child? .arguments = some arguments)
    (isList : arguments.kind ≠ .templateString) :
    (exploreAll context ancestors node.children counters).edits =
      (explore context ancestors function counters).edits ++
        (exploreAll context (arguments :: ancestors) arguments.children
          (rewrite context ancestors function counters).2).edits := by
  have isArguments := wellFormed.kind_arguments isCall argumentsPart isList
  have two := wellFormed.values_call isCall functionPart argumentsPart
  have functionWellFormed := wellFormed.child (Node.mem_children_of_child? functionPart)
  rw [exploreAll_twoValues wellFormed two, ← explore_of_no_rule (select?_arguments isArguments),
    counters_rewrite function functionWellFormed]
  rfl

/-- The two source parts of a call that gets an identifier: its function, and what is between its
parentheses. -/
theorem exists_call_written {node function arguments : Node} {emission : Emission}
    (wellFormed : node.WellFormed context.source.chars) (isCall : node.kind = .callExpression)
    (functionPart : node.child? .function = some function)
    (argumentsPart : node.child? .arguments = some arguments)
    (isList : arguments.kind ≠ .templateString)
    (eachFunction : Renders context edits function)
    (eachArgument : ∀ child ∈ arguments.children, Renders context edits child)
    (amid : Amid edits [node] node.stop owner before
      (⟨node.key, emission⟩ :: (exploreAll context ancestors node.children counters).edits) after)
    (deep : (exploreAll context ancestors node.children counters).edits.length ≤ depth) :
    ∃ inFunction inArguments,
      (exploreAll context ancestors node.children counters).edits = inFunction ++ inArguments ∧
      traceUpTo edits context.source.chars (depth + 1) function.range (some node.key) =
        .ok ⟨textOf .function (rewriteAll context ancestors node.children counters).1,
          inFunction⟩ ∧
      traceUpTo edits context.source.chars (depth + 1) ⟨arguments.start + 1, arguments.stop - 1⟩
          (some node.key) =
        .ok ⟨betweenParentheses
          (textOf .arguments (rewriteAll context ancestors node.children counters).1),
          inArguments⟩ := by
  obtain ⟨functionCovers, apart, argumentsCover, inNode, inNode'⟩ :=
    call_ordered wellFormed isCall functionPart argumentsPart
  have isArguments := wellFormed.kind_arguments isCall argumentsPart isList
  have functionWellFormed := wellFormed.child (Node.mem_children_of_child? functionPart)
  have argumentsWellFormed := wellFormed.child (Node.mem_children_of_child? argumentsPart)
  have laid := argumentsWellFormed.laid_between
    (argumentsWellFormed.placed.arguments isArguments) rfl rfl
  obtain ⟨functionText, argumentsText⟩ :=
    @textOf_call context ancestors _ _ _ wellFormed isCall functionPart argumentsPart counters
  have below := @edits_exploreAll_call context ancestors counters _ _ _ wellFormed isCall
    functionPart argumentsPart isList
  have inFunction : ∀ edit ∈ (explore context ancestors function counters).edits,
      edit.key.start < arguments.start + 1 := by
    intro edit member
    have starts := start_lt_of_explore functionWellFormed member
    omega
  have inArguments : ∀ edit ∈ (exploreAll context (arguments :: ancestors) arguments.children
      (rewrite context ancestors function counters).2).edits, function.stop ≤ edit.key.start := by
    intro edit member
    have starts := (covered_exploreAll (fun child member => argumentsWellFormed.child member) laid _
      edit member).within.1
    simp only [Edit.range] at starts
    omega
  have lengths := congrArg List.length below
  rw [List.length_append] at lengths
  rw [below] at amid
  have forward := laid.le
  simp only [ByteRange.Within, Node.start, Node.stop] at inNode inNode' apart functionCovers forward
  refine ⟨_, _, below, ?_, ?_⟩
  · rw [functionText]
    refine traceUpTo_node functionWellFormed eachFunction amid inNode ?_ inArguments (by omega)
    simp only [EditKey.before_iff, Node.key, Node.start, Node.stop]
    omega
  · rw [argumentsText, between_rewrite_arguments argumentsWellFormed isArguments]
    rw [← List.append_nil (exploreAll context (arguments :: ancestors) _ _).edits] at amid
    refine traceUpTo_part
      (fun child member => argumentsWellFormed.child member) eachArgument laid
      amid ?_ ?_ ?_ inFunction (by simp) (by omega)
    · simp only [ByteRange.Within, Node.start, Node.stop]
      omega
    · simp only [Node.key, Node.start]
      omega
    · intro child member
      have bounds := laid.bounds child member
      simp only [EditKey.before_iff, Node.key, Node.start, Node.stop] at *
      omega

/-- A call that gets an identifier as its first argument. -/
theorem traceFrom_identified {node function arguments : Node} {id : String}
    (wellFormed : node.WellFormed context.source.chars) (isCall : node.kind = .callExpression)
    (functionPart : node.child? .function = some function)
    (argumentsPart : node.child? .arguments = some arguments)
    (isList : arguments.kind ≠ .templateString)
    (eachFunction : Renders context edits function)
    (eachArgument : ∀ child ∈ arguments.children, Renders context edits child) :
    let own : Edit := ⟨node.key, .callBefore (.source function.range) (.identifier id)
      (CallParts.inner? ⟨node.range, function, arguments⟩)⟩
    let below := (exploreAll context ancestors node.children counters).edits
    let parts := (rewriteAll context ancestors node.children counters).1
    Amid edits [node] node.stop owner before (own :: below) after → below.length ≤ depth →
      traceFrom context.source.chars (traceUpTo edits context.source.chars (depth + 1)) node.stop
          owner node.start (own :: below) =
        .ok ⟨identifiedCall (textOf .function parts) id
          (betweenParentheses (textOf .arguments parts)), own :: below⟩ := by
  intro own below parts amid deep
  obtain ⟨inFunction, inArguments, split, functionWritten, argumentsWritten⟩ :=
    exists_call_written wellFormed isCall functionPart argumentsPart isList eachFunction
      eachArgument amid deep
  obtain ⟨ofSome, ofNone⟩ := inner?_arguments wellFormed
    (Node.mem_children_of_child? argumentsPart)
    (wellFormed.kind_arguments isCall argumentsPart isList) function
  -- Without text between the parentheses nothing is replaced there.
  have noInner : CallParts.inner? ⟨node.range, function, arguments⟩ = none →
      betweenParentheses (textOf .arguments parts) = [] ∧ inArguments = [] := by
    intro none
    have stop : arguments.stop - 1 = arguments.start + 1 := by
      have adjacent := (ofNone none).1
      omega
    obtain ⟨_, _, _, opens, _⟩ := ((wellFormed.child
      (Node.mem_children_of_child? argumentsPart)).placed.arguments
        (wellFormed.kind_arguments isCall argumentsPart isList)).exists_slice_inner
          (wellFormed.child (Node.mem_children_of_child? argumentsPart)).placed rfl rfl
    rw [stop, traceUpTo_empty opens] at argumentsWritten
    have same := Except.ok.inj argumentsWritten
    rw [Traced.mk.injEq] at same
    exact ⟨same.1.symm, same.2.symm⟩
  have written : writeEmission (traceUpTo edits context.source.chars (depth + 1)).plain
      node.key own.emission =
      .ok (identifiedCall (textOf .function parts) id
        (betweenParentheses (textOf .arguments parts))) := by
    refine writeEmission_callBefore ?_ ?_ fun none => (noInner none).1
    · rw [writeEmission, TracedWriter.plain, functionWritten]
      rfl
    · intro range isInner
      rw [(ofSome range isInner).1, TracedWriter.plain, argumentsWritten]
      rfl
  have applied : appliedIn (traceUpTo edits context.source.chars (depth + 1)) node.key
      own.emission.sources = below := by
    simp only [appliedIn, own, below, split, Emission.callBefore, Emission.sources, Arguments.sources]
    cases inner : CallParts.inner? ⟨node.range, function, arguments⟩ with
    | none => simp [TracedWriter.applied, functionWritten, (noInner inner).2]
    | some range =>
        simp [TracedWriter.applied, functionWritten, (ofSome range inner).1, argumentsWritten]
  rw [traceFrom_whole wellFormed (covers_of_call wellFormed isCall) amid
    (fun edit member => start_lt_of_below wellFormed member) written, applied]

/-- No child of a call covers the whole call. -/
theorem key_before_of_call {text : List Char} {node child : Node}
    (wellFormed : node.WellFormed text) (isCall : node.kind = .callExpression)
    (member : child ∈ node.children) : node.key.before child.key = true := by
  obtain ⟨function, arguments, functionPart, argumentsPart, values, _⟩ :=
    wellFormed.exists_call_parts isCall
  obtain ⟨covers, apart, covers', inNode, inNode'⟩ :=
    call_ordered wellFormed isCall functionPart argumentsPart
  obtain ⟨before, between, after, two⟩ := Node.exists_twoValues values
  have ordered := wellFormed.placed.ordered
  have inside := wellFormed.placed.inside child member
  rw [two.children] at member ordered
  rw [List.pairwise_append, List.pairwise_cons] at ordered
  simp only [EditKey.before_iff, Node.key, ByteRange.Within, Node.start, Node.stop] at *
  rcases List.mem_append.mp member with inBefore | inRest
  · have stops := ordered.2.2 child inBefore function List.mem_cons_self
    omega
  · rcases List.mem_cons.mp inRest with rfl | behind
    · omega
    · have starts := ordered.2.1.1 child behind
      omega

/-- A call that is awaited. -/
theorem traceFrom_awaiting {node : Node} {standsAlone : Bool}
    (wellFormed : node.WellFormed context.source.chars) (isCall : node.kind = .callExpression)
    (each : ∀ child ∈ node.children, Renders context edits child) :
    let own : Edit := ⟨node.key, if standsAlone then .await (.source node.range)
      else .parens (.await (.source node.range))⟩
    let below := (exploreAll context ancestors node.children counters).edits
    let parts := (rewriteAll context ancestors node.children counters).1
    Amid edits [node] node.stop owner before (own :: below) after → below.length ≤ depth →
      traceFrom context.source.chars (traceUpTo edits context.source.chars (depth + 1)) node.stop
          owner node.start (own :: below) =
        .ok ⟨awaited standsAlone (weave context.source node.start node.stop parts),
          own :: below⟩ := by
  intro own below parts amid deep
  have amid' : Amid edits [node] node.stop owner before (own :: ([] ++ (below ++ []))) after := by
    simpa using amid
  have written : traceUpTo edits context.source.chars (depth + 1) node.range (some node.key) =
      .ok ⟨weave context.source node.start node.stop parts, below⟩ :=
    traceUpTo_part (fun child member => wellFormed.child member) each wellFormed.laid amid'
      ⟨Nat.le_refl _, Nat.le_refl _⟩ (Nat.le_refl _)
      (fun child member => key_before_of_call wellFormed isCall member) (by simp) (by simp) deep
  have emission : writeEmission (traceUpTo edits context.source.chars (depth + 1)).plain
      node.key own.emission =
      .ok (awaited standsAlone (weave context.source node.start node.stop parts)) := by
    cases standsAlone <;>
      simp [own, writeEmission, TracedWriter.plain, written, awaited, parenthesizedUnless,
        Except.map, bind, Except.bind, pure, Except.pure]
  have applied : appliedIn (traceUpTo edits context.source.chars (depth + 1)) node.key
      own.emission.sources = below := by
    cases standsAlone <;> simp [appliedIn, own, Emission.sources, TracedWriter.applied, written]
  rw [traceFrom_whole wellFormed (covers_of_call wellFormed isCall) amid
    (fun edit member => start_lt_of_below wellFormed member) emission, applied]

/-- The parts of a labelled expression statement: the expression, which is a source part, and what
follows it up to the end of the statement. -/
theorem exists_label_written {node body expression : Node} {emission : Emission}
    (wellFormed : node.WellFormed context.source.chars)
    (isLabeled : node.kind = .labeledStatement) (bodyPart : node.child? .body = some body)
    (isExpression : body.kind = .expressionStatement)
    (firstValue : body.values.head? = some expression)
    (each : ∀ child ∈ body.children, Renders context edits child)
    (amid : Amid edits [node] node.stop owner before (⟨⟨node.start, expression.stop⟩, emission⟩ ::
      (exploreAll context ancestors node.children counters).edits) after)
    (deep : (exploreAll context ancestors node.children counters).edits.length ≤ depth)
    (name : String) :
    ∃ (inExpression inRest : List Edit) (expressionText restText : List Char),
      (exploreAll context ancestors node.children counters).edits = inExpression ++ inRest ∧
      (∀ edit ∈ inExpression, edit.key.start < expression.stop) ∧
      labeled context.source node.stop name
          (rewriteAll context ancestors node.children counters).1 =
        named expression.kind.isMemberSafe expressionText name ++ restText ∧
      traceUpTo edits context.source.chars (depth + 1) expression.range
          (some ⟨node.start, expression.stop⟩) = .ok ⟨expressionText, inExpression⟩ ∧
      traceFrom context.source.chars (traceUpTo edits context.source.chars (depth + 1)) node.stop
          owner expression.stop inRest = .ok ⟨restText, inRest⟩ := by
  obtain ⟨behind, inBody, inNode, expressionWellFormed⟩ :=
    expression_placed wellFormed isLabeled bodyPart firstValue
  obtain ⟨front, rest, children, extras, isValue, found⟩ :=
    @exploreAll_labeled context ancestors _ _ _ wellFormed isLabeled bodyPart isExpression
      firstValue counters
  have bodyWellFormed := wellFormed.child (Node.mem_children_of_child? bodyPart)
  have bodyLaid := bodyWellFormed.laid
  rw [children] at bodyLaid
  have restWellFormed : ∀ child ∈ rest, child.WellFormed context.source.chars :=
    fun child member => bodyWellFormed.child (by simp [children, member])
  have restLaid : Node.Laid context.source.chars node.stop expression.stop rest :=
    bodyLaid.behind.widen wellFormed.placed.last inNode.2
  have split : (exploreAll context ancestors node.children counters).edits =
      (explore context (body :: ancestors) expression counters).edits ++
        (exploreAll context (body :: ancestors) rest
          (rewrite context (body :: ancestors) expression counters).2).edits := by
    rw [found, counters_rewrite expression expressionWellFormed]
    rfl
  have lengths := congrArg List.length split
  rw [List.length_append] at lengths
  rw [split] at amid
  have inExpression : ∀ edit ∈ (explore context (body :: ancestors) expression counters).edits,
      edit.key.start < expression.stop := fun edit member =>
    start_lt_of_explore expressionWellFormed member
  have inRest : ∀ edit ∈ (exploreAll context (body :: ancestors) rest
      (rewrite context (body :: ancestors) expression counters).2).edits,
      expression.stop ≤ edit.key.start := fun edit member =>
    (covered_exploreAll restWellFormed restLaid _ edit member).within.1
  have forward := expressionWellFormed.placed.forward
  simp only [ByteRange.Within, Node.start, Node.stop] at behind inBody inNode forward
  refine ⟨_, _, _, _, split, inExpression, labeled_rewriteAll wellFormed isLabeled bodyPart
    isExpression children extras isValue name counters, ?_, ?_⟩
  · refine traceUpTo_node expressionWellFormed (each expression (by simp [children])) amid ?_ ?_
      inRest (by omega)
    · simp only [ByteRange.Within]
      omega
    · simp only [EditKey.before_iff, Node.key, Node.start]
      omega
  · have amidRest : Amid edits rest node.stop owner
        (before ++ ⟨⟨node.start, expression.stop⟩, emission⟩ ::
          (explore context (body :: ancestors) expression counters).edits)
        (exploreAll context (body :: ancestors) rest
          (rewrite context (body :: ancestors) expression counters).2).edits after :=
      { entries := by simpa using amid.entries
        owned := fun key isOwner => (amid.owned key isOwner).imp fun edit found =>
          ⟨List.mem_append_left _ found.1, found.2⟩
        earlier := fun edit member child isNode => by
          have bounds := restLaid.bounds child isNode
          simp only [List.mem_append, List.mem_cons] at member
          rcases member with inBefore | rfl | atExpression
          · refine EditKey.before_of_within (amid.earlier edit inBefore node List.mem_cons_self)
              ?_ bounds.2
            simp only [Node.key, Node.start, Node.stop] at *
            omega
          · simp only [EditKey.before_iff, Node.key, Node.start, Node.stop] at *
            omega
          · have starts := inExpression edit atExpression
            simp only [EditKey.before_iff, Node.key] at *
            omega
        later := amid.later }
    exact traceFrom_exploreAll restWellFormed
      (fun child member => each child (by simp [children, member])) restLaid amidRest (by omega)

/-- A labelled expression that is named. -/
theorem traceFrom_naming {node body expression : Node} {name : String}
    (wellFormed : node.WellFormed context.source.chars)
    (isLabeled : node.kind = .labeledStatement) (bodyPart : node.child? .body = some body)
    (isExpression : body.kind = .expressionStatement)
    (firstValue : body.values.head? = some expression)
    (each : ∀ child ∈ body.children, Renders context edits child) :
    let own : Edit := ⟨⟨node.start, expression.stop⟩,
      .method (if expression.kind.isMemberSafe then .source expression.range
        else .parens (.source expression.range)) "p" [.quoted name]⟩
    let below := (exploreAll context ancestors node.children counters).edits
    let parts := (rewriteAll context ancestors node.children counters).1
    Amid edits [node] node.stop owner before (own :: below) after → below.length ≤ depth →
      traceFrom context.source.chars (traceUpTo edits context.source.chars (depth + 1)) node.stop
          owner node.start (own :: below) =
        .ok ⟨labeled context.source node.stop name parts, own :: below⟩ := by
  intro own below parts amid deep
  obtain ⟨inExpression, inRest, expressionText, restText, split, starts, text, expressionWritten,
    restWritten⟩ := exists_label_written wellFormed isLabeled bodyPart isExpression firstValue each
      amid deep name
  obtain ⟨behind, inBody, inNode, expressionWellFormed⟩ :=
    expression_placed wellFormed isLabeled bodyPart firstValue
  have forward := expressionWellFormed.placed.forward
  have stops : expression.stop ≤ node.stop := Nat.le_trans inBody.2 inNode.2
  have covers : node.start < expression.stop :=
    Nat.lt_of_lt_of_le behind (Nat.le_trans inBody.1 forward)
  have emission : writeEmission (traceUpTo edits context.source.chars (depth + 1)).plain own.key
      own.emission = .ok (named expression.kind.isMemberSafe expressionText name) := by
    by_cases safe : expression.kind.isMemberSafe <;>
      simp [own, safe, Emission.method, Emission.callWith, writeEmission, writeArguments,
        writeItems, TracedWriter.plain, expressionWritten, named, parenthesizedUnless,
        Except.map, bind, Except.bind, pure, Except.pure]
  have applied : appliedIn (traceUpTo edits context.source.chars (depth + 1)) own.key
      own.emission.sources = inExpression := by
    by_cases safe : expression.kind.isMemberSafe <;>
      simp [appliedIn, own, safe, Emission.method, Emission.callWith, Emission.sources,
        Arguments.sources, Emission.sourcesAll, TracedWriter.applied, expressionWritten]
  have made := @traceFrom_cons _ _ node.stop owner own _ _ _ _ wellFormed.placed.first covers stops
    (amid.ne_owner (Nat.le_refl _) stops) starts emission restWritten
  rw [applied] at made
  simp only [below, parts]
  rw [text, split]
  exact made

/-- A node that is wrapped is written if its replacement is made around what is found below it. -/
theorem traceFrom_wrapping {node : Node} {found : Findings} {own : Edit}
    {text : List Rewritten → List Char}
    (looked : look context ancestors node counters = (.descend, found)) (one : found.edits = [own])
    (manner : Manner.of context ancestors node counters = (.build text, found.counters))
    (written : ∀ less,
      let below := (exploreAll context (node :: ancestors) node.children found.counters).edits
      let parts := (rewriteAll context (node :: ancestors) node.children found.counters).1
      Amid edits [node] node.stop owner before (own :: below) after → below.length ≤ less →
        traceFrom context.source.chars (traceUpTo edits context.source.chars (less + 1)) node.stop
          owner node.start (own :: below) = .ok ⟨text parts, own :: below⟩)
    (amid : Amid edits [node] node.stop owner before (explore context ancestors node counters).edits
      after)
    (deep : (explore context ancestors node counters).edits.length ≤ depth) :
    traceFrom context.source.chars (traceUpTo edits context.source.chars depth) node.stop owner
        node.start (explore context ancestors node counters).edits =
      .ok ⟨(rewrite context ancestors node counters).1.text,
        (explore context ancestors node counters).edits⟩ := by
  rw [explore_of_descend looked] at amid deep ⊢
  rw [rewrite_of_build manner]
  simp only [Findings.append, one, List.cons_append, List.nil_append, List.length_cons]
    at amid deep ⊢
  obtain ⟨less, rfl⟩ : ∃ less, depth = less + 1 := ⟨depth - 1, by omega⟩
  exact written less amid (Nat.le_of_succ_le_succ deep)

end Writing

/-- The range of a well-formed node is written as the rewriter says, and so are those of its
children. -/
theorem renders {context : PassContext} {edits : Edits} (node : Node) :
    node.WellFormed context.source.chars →
      Renders context edits node ∧ ∀ child ∈ node.children, Renders context edits child := by
  induction node using Node.induction with
  | step kind role range children inductionHypothesis =>
      intro wellFormed
      have each : ∀ child ∈ children, Renders context edits child := fun child member =>
        (inductionHypothesis child member (wellFormed.child member)).1
      have eachBelow : ∀ child ∈ children, ∀ other ∈ child.children,
          Renders context edits other := fun child member =>
        (inductionHypothesis child member (wellFormed.child member)).2
      refine ⟨?_, each⟩
      intro ancestors counters owner before after depth amid deep
      have recorded := recorded_look wellFormed ancestors counters
      cases looked : look context ancestors (.mk kind role range children) counters with
      | mk action found =>
      cases manner : Manner.of context ancestors (.mk kind role range children) counters with
      | mk made counted =>
      rw [looked, manner] at recorded
      cases recorded with
      | folded _ covers one parts writes =>
          rw [explore_of_skip looked, one] at amid deep ⊢
          rw [rewrite_of_fold manner]
          obtain ⟨depth, rfl⟩ := Nat.exists_eq_add_of_le' deep
          exact traceFrom_folded wellFormed covers parts writes amid
      | nothing same none =>
          rw [explore_of_descend looked] at amid deep ⊢
          rw [rewrite_of_build manner, ← same]
          simp only [Findings.append, none, List.nil_append] at amid deep ⊢
          exact traceFrom_exploreAll (fun child member => wellFormed.child member) each
            wellFormed.laid (amid.children wellFormed) deep
      | identified same isCall functionPart argumentsPart isList one =>
          refine traceFrom_wrapping looked one (same ▸ manner) (fun less => ?_) amid deep
          exact traceFrom_identified wellFormed isCall functionPart argumentsPart isList
            (each _ (Node.mem_children_of_child? functionPart))
            (eachBelow _ (Node.mem_children_of_child? argumentsPart))
      | awaiting same isCall one =>
          refine traceFrom_wrapping looked one (same ▸ manner) (fun less => ?_) amid deep
          exact traceFrom_awaiting wellFormed isCall each
      | naming same isLabeled bodyPart isExpression firstValue one =>
          refine traceFrom_wrapping looked one (same ▸ manner) (fun less => ?_) amid deep
          exact traceFrom_naming wellFormed isLabeled bodyPart isExpression firstValue
            (eachBelow _ (Node.mem_children_of_child? bodyPart))

end Pass

end PatternScript
