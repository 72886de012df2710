import PatternScript.Proofs.Script.WellFormed
import PatternScript.Transpile.Reading

/-!
Contract: which fault of a syntax tree is reported.

The search for a fault looks below a node only if there is a fault below it, and leaves the other
children out as soon as one of them has an answer. Looking at every node in document order gives the
same answer. Reading a program asks the root whether there is a fault at all before it searches; a
root that says so is never left without a fault to report.

Owns: when a tree marks a fault, and the first of its faults.
Does not own: the faults of a text.
-/

namespace PatternScript.Script

namespace Node

/-! ## Marked trees -/

theorem anyFault_iff {nodes : List Node} :
    anyFault nodes = true ↔ ∃ node ∈ nodes, node.hasFault = true := by
  induction nodes with
  | nil => simp [anyFault]
  | cons node more inductionHypothesis => simp [anyFault, inductionHypothesis]

/-- A tree marks a fault exactly if one of its nodes does. -/
theorem hasFault_iff (tree : Node) :
    tree.hasFault = true ↔ ∃ node ∈ tree.preorder, node.isFault = true := by
  induction tree using Node.induction with
  | step kind role range children inductionHypothesis =>
      have below : anyFault children = true ↔
          ∃ node ∈ preorderAll children, node.isFault = true := by
        rw [anyFault_iff]
        constructor
        · rintro ⟨child, isChild, faulty⟩
          obtain ⟨node, inChild, isFault⟩ := (inductionHypothesis child isChild).mp faulty
          exact ⟨node, mem_preorderAll.mpr ⟨child, isChild, inChild⟩, isFault⟩
        · rintro ⟨node, member, isFault⟩
          obtain ⟨child, isChild, inChild⟩ := mem_preorderAll.mp member
          exact ⟨child, isChild, (inductionHypothesis child isChild).mpr ⟨node, inChild, isFault⟩⟩
      simp only [hasFault, preorder, Bool.or_eq_true, below, List.mem_cons, exists_eq_or_imp]
      rfl

theorem hasFault_eq_false_iff (tree : Node) :
    tree.hasFault = false ↔ ∀ node ∈ tree.preorder, node.isFault = false := by
  rw [← Bool.not_eq_true, hasFault_iff]
  simp

/-! ## The search -/

/-- Stopping at the first tree with an answer is searching the nodes of all trees. -/
theorem firstFaultIn?_eq_find? {nodes : List Node}
    (each : ∀ node ∈ nodes, node.firstFault? = node.preorder.find? isFault) :
    firstFaultIn? nodes = (preorderAll nodes).find? isFault := by
  induction nodes with
  | nil => rfl
  | cons node rest inductionHypothesis =>
      rw [List.forall_mem_cons] at each
      rw [firstFaultIn?, preorderAll, List.find?_append, each.1, inductionHypothesis each.2]
      cases node.preorder.find? isFault with
      | none => rfl
      | some found => rfl

/-- The search finds what looking at every node in document order finds. -/
theorem firstFault?_eq_find? (tree : Node) : tree.firstFault? = tree.preorder.find? isFault := by
  induction tree using Node.induction with
  | step kind role range children inductionHypothesis =>
      cases faulty : hasFault (.mk kind role range children) with
      | false =>
          -- What is passed over holds nothing to find.
          have clean := (hasFault_eq_false_iff _).mp faulty
          have notHere : kind.isFault = false := clean _ (mem_preorder_self _)
          rw [firstFault?, notHere, faulty, List.find?_eq_none.mpr (by simpa using clean)]
          rfl
      | true =>
          rw [firstFault?, faulty, firstFaultIn?_eq_find? inductionHypothesis, preorder]
          cases marked : kind.isFault with
          | true =>
              have here : isFault (.mk kind role range children) = true := marked
              rw [List.find?_cons_of_pos here]
              rfl
          | false =>
              have notHere : ¬isFault (.mk kind role range children) = true :=
                Bool.eq_false_iff.mp marked
              rw [List.find?_cons_of_neg notHere]
              rfl

/-- A fault is found exactly if the tree marks one. -/
theorem firstFault?_eq_none_iff (tree : Node) :
    tree.firstFault? = none ↔ tree.hasFault = false := by
  rw [firstFault?_eq_find?, List.find?_eq_none, hasFault_eq_false_iff]
  simp

theorem isSome_firstFault? (tree : Node) : tree.firstFault?.isSome = tree.hasFault := by
  rw [Bool.eq_iff_iff, Option.isSome_iff_ne_none, ne_eq, firstFault?_eq_none_iff,
    Bool.not_eq_false]

/-! ## Reports -/

/-- Reading a tree may ask the root first. What it would report of a tree without a fault does not
matter. -/
theorem requireSound_eq (source : SourceText) (tree fallback : Node) :
    requireSound source tree =
      if tree.hasFault then
        let fault := tree.firstFault?.getD fallback
        .error (.parse (faultMessage source fault) (.ofByte source fault.start))
      else .ok tree := by
  rw [requireSound, ← isSome_firstFault?]
  cases tree.firstFault? with
  | none => rfl
  | some fault => rfl

/-- Let each node of a tree be flagged exactly if it or a node below it marks a fault. Then the search
goes by these flags. It finds the first fault in document order, and none exactly if there is none.
A tree with a flagged root is refused at that fault, whatever is to be reported if none is found. -/
theorem first_fault_reported (source : SourceText) (tree : Node) (flagged : Node → Bool)
    (flags : ∀ node ∈ tree.preorder,
      flagged node = true ↔ ∃ below ∈ node.preorder, below.isFault = true) :
    (∀ node ∈ tree.preorder, node.hasFault = flagged node) ∧
    tree.firstFault? = tree.preorder.find? isFault ∧
    (tree.firstFault? = none ↔ ∀ node ∈ tree.preorder, node.isFault = false) ∧
    tree.firstFault?.isSome = flagged tree ∧
    ∀ fallback, requireSound source tree =
      if flagged tree then
        let fault := tree.firstFault?.getD fallback
        .error (.parse (faultMessage source fault) (.ofByte source fault.start))
      else .ok tree := by
  have asked : ∀ node ∈ tree.preorder, node.hasFault = flagged node := by
    intro node member
    rw [Bool.eq_iff_iff, hasFault_iff, flags node member]
  rw [← asked tree (mem_preorder_self tree)]
  refine ⟨asked, firstFault?_eq_find? tree, ?_, isSome_firstFault? tree, requireSound_eq source tree⟩
  rw [firstFault?_eq_none_iff, hasFault_eq_false_iff]

/-- A text with a comma, a semicolon and the start of a group left out. -/
def faultyText : List Char := "f(a b)]".toList

/-- The first fault of its tree is inside a call and has a fault inside. -/
def faultyTree : Node :=
  .mk .program none ⟨0, 7⟩ [
    .mk .expressionStatement none ⟨0, 6⟩ [
      .mk .callExpression none ⟨0, 6⟩ [
        .mk .identifier (some .function) ⟨0, 1⟩ [],
        .mk .arguments (some .arguments) ⟨1, 6⟩ [
          .mk .identifier none ⟨2, 3⟩ [],
          .mk .error none ⟨4, 5⟩ [.mk (.missing ",") none ⟨4, 4⟩ [], .mk .identifier none ⟨4, 5⟩ []]]]],
    .mk (.missing ";") none ⟨6, 6⟩ [],
    .mk .error none ⟨6, 7⟩ [.mk .error none ⟨6, 7⟩ []]]

/-- The fault inside the call is reported, not the one inside it and not one nearer to the root. -/
theorem first_fault_reported_nested :
    (∀ node ∈ faultyTree.preorder,
      node.hasFault = true ↔ ∃ below ∈ node.preorder, below.isFault = true) ∧
    faultyTree.firstFault?.map range = some ⟨4, 5⟩ ∧
    requireSound (.ofChars faultyText) faultyTree =
      .error (.parse "unexpected `b`" ⟨4, 1, 5⟩) := by
  have flags : ∀ node ∈ faultyTree.preorder,
      node.hasFault = true ↔ ∃ below ∈ node.preorder, below.isFault = true :=
    fun node _ => hasFault_iff node
  obtain ⟨_, found, _, _, refused⟩ :=
    first_fault_reported (.ofChars faultyText) faultyTree hasFault flags
  refine ⟨flags, ?_, ?_⟩
  · rw [found]
    rfl
  · rw [refused faultyTree, found]
    rfl

end Node

end PatternScript.Script
