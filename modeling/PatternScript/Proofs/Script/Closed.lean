import PatternScript.Proofs.Script.WellFormed

/-!
Contract: what can stand inside what.

Of two nodes of a tree one stands inside the other, or they stand apart. A name holds nothing, a
string holds nothing but pieces of itself, and a template literal holds expressions in its
substitutions alone, behind the character that opens them.

Owns: nodes inside each other and apart, and what names and literals may hold.
Does not own: the ranges of nodes and the delimiters of literals.
-/

namespace PatternScript.Script.Node

theorem mem_preorder_iff {node tree : Node} :
    node ∈ tree.preorder ↔ node = tree ∨ ∃ child ∈ tree.children, node ∈ child.preorder := by
  obtain ⟨kind, role, range, children⟩ := tree
  rw [preorder, List.mem_cons, mem_preorderAll]
  rfl

theorem mem_preorder_trans {inner tree : Node} :
    ∀ {middle : Node}, middle ∈ tree.preorder → inner ∈ middle.preorder → inner ∈ tree.preorder := by
  induction tree using Node.induction with
  | step kind role range children inductionHypothesis =>
      intro middle isMiddle isInner
      rcases mem_preorder_iff.mp isMiddle with rfl | ⟨child, isChild, inChild⟩
      · exact isInner
      · exact mem_preorder_of_child isChild (inductionHypothesis child isChild inChild isInner)

/-- Of two nodes of a well-formed tree one is inside the other, or they are apart. -/
theorem nested_or_apart {text : List Char} {tree : Node} :
    tree.WellFormed text → ∀ first ∈ tree.preorder, ∀ second ∈ tree.preorder,
      first ∈ second.preorder ∨ second ∈ first.preorder ∨
        first.stop ≤ second.start ∨ second.stop ≤ first.start := by
  induction tree using Node.induction with
  | step kind role range children inductionHypothesis =>
      intro wellFormed first isFirst second isSecond
      rcases mem_preorder_iff.mp isFirst with rfl | ⟨left, isLeft, inLeft⟩
      · exact .inr (.inl isSecond)
      rcases mem_preorder_iff.mp isSecond with rfl | ⟨right, isRight, inRight⟩
      · exact .inl isFirst
      have leftWithin := ((wellFormed.child isLeft).of_mem_preorder first inLeft).2
      have rightWithin := ((wellFormed.child isRight).of_mem_preorder second inRight).2
      -- The nodes are in one child or in two of them, one of which comes first.
      have sides : left = right ∨ left.stop ≤ right.start ∨ right.stop ≤ left.start := by
        obtain ⟨place, isPlace, rfl⟩ := List.mem_iff_getElem.mp isLeft
        obtain ⟨other, isOther, rfl⟩ := List.mem_iff_getElem.mp isRight
        have ordered := List.pairwise_iff_getElem.mp wellFormed.placed.ordered
        rcases Nat.lt_trichotomy place other with before | same | behind
        · exact .inr (.inl (ordered place other isPlace isOther before))
        · subst same
          exact .inl rfl
        · exact .inr (.inr (ordered other place isOther isPlace behind))
      rcases sides with rfl | before | behind
      · exact inductionHypothesis left isLeft (wellFormed.child isLeft) first inLeft second inRight
      · exact .inr (.inr (.inl (Nat.le_trans leftWithin.2 (Nat.le_trans before rightWithin.1))))
      · exact .inr (.inr (.inr (Nat.le_trans rightWithin.2 (Nat.le_trans behind leftWithin.1))))

/-! ## Names and literals -/

/-- A leaf that no rule is about: a comment, a name, or a piece of a literal. -/
def IsInert (node : Node) : Prop :=
  node.children.isEmpty = true ∧
    node.kind ∉ [.callExpression, .templateString, .string, .labeledStatement]

instance (node : Node) : Decidable node.IsInert :=
  inferInstanceAs (Decidable (_ ∧ _))

/-- What a name or a literal may hold. -/
structure Closed (text : List Char) (node : Node) : Prop where
  name : node.kind = .identifier → node.children.isEmpty = true
  string : node.kind = .string → ∀ child ∈ node.children, child.IsInert
  template : node.kind = .templateString → ∀ child ∈ node.children, child.IsInert ∨
    child.kind = .templateSubstitution ∧ child.Delimited text '$' '}'

instance (text : List Char) (node : Node) : Decidable (node.Closed text) :=
  decidable_of_iff
    ((node.kind = .identifier → node.children.isEmpty = true) ∧
      (node.kind = .string → ∀ child ∈ node.children, child.IsInert) ∧
      (node.kind = .templateString → ∀ child ∈ node.children, child.IsInert ∨
        child.kind = .templateSubstitution ∧ child.Delimited text '$' '}'))
    ⟨fun ⟨name, string, template⟩ => ⟨name, string, template⟩,
      fun closed => ⟨closed.name, closed.string, closed.template⟩⟩

section Holding

variable {text : List Char} {node literal : Node}

theorem IsInert.not_mem_preorder (inert : node.IsInert)
    (isLiteral : literal.kind = .string ∨ literal.kind = .templateString) :
    literal ∉ node.preorder := by
  intro member
  obtain ⟨leaf, noRule⟩ := inert
  rcases mem_preorder_iff.mp member with rfl | ⟨child, isChild, _⟩
  · rcases isLiteral with isString | isTemplate
    · simp [isString] at noRule
    · simp [isTemplate] at noRule
  · rw [List.isEmpty_iff.mp leaf] at isChild
    exact absurd isChild List.not_mem_nil

theorem Placed.isInert_of_extra (placed : node.Placed text) (isExtra : node.kind.isExtra = true) :
    node.IsInert := by
  refine ⟨(placed.extra isExtra).2, fun hasRule => ?_⟩
  simp only [List.mem_cons, List.not_mem_nil, or_false] at hasRule
  rcases hasRule with kind | kind | kind | kind <;> simp [kind, Kind.isExtra] at isExtra

theorem Closed.not_mem_name (closed : node.Closed text) (isName : node.kind = .identifier)
    (isLiteral : literal.kind = .string ∨ literal.kind = .templateString) :
    literal ∉ node.preorder :=
  IsInert.not_mem_preorder ⟨closed.name isName, by simp [isName]⟩ isLiteral

theorem Closed.eq_of_mem_string (closed : node.Closed text) (isString : node.kind = .string)
    (isLiteral : literal.kind = .string ∨ literal.kind = .templateString)
    (member : literal ∈ node.preorder) : literal = node := by
  rcases mem_preorder_iff.mp member with same | ⟨child, isChild, inChild⟩
  · exact same
  · exact absurd inChild ((closed.string isString child isChild).not_mem_preorder isLiteral)

/-- No comment holds a literal. -/
theorem WellFormed.mem_values {child : Node} (wellFormed : node.WellFormed text)
    (isLiteral : literal.kind = .string ∨ literal.kind = .templateString)
    (isChild : child ∈ node.children) (inChild : literal ∈ child.preorder) :
    child ∈ node.values := by
  refine List.mem_filter.mpr ⟨isChild, ?_⟩
  by_cases isExtra : child.kind.isExtra = true
  · have inert := (wellFormed.child isChild).placed.isInert_of_extra isExtra
    exact absurd inChild (inert.not_mem_preorder isLiteral)
  · simpa using isExtra

/-- A template literal holds other literals in its substitutions. -/
theorem Closed.exists_substitution (closed : node.Closed text)
    (isTemplate : node.kind = .templateString)
    (isLiteral : literal.kind = .string ∨ literal.kind = .templateString) {child : Node}
    (isChild : child ∈ node.children) (inChild : literal ∈ child.preorder) :
    child.kind = .templateSubstitution ∧ child.Delimited text '$' '}' := by
  rcases closed.template isTemplate child isChild with inert | substitution
  · exact absurd inChild (inert.not_mem_preorder isLiteral)
  · exact substitution

end Holding

end PatternScript.Script.Node
