import Mathlib.Data.List.Forall2
import PatternScript.Proofs.Script.Walk
import PatternScript.Proofs.Script.WellFormed
import PatternScript.Shape

/-!
Contract: programs that differ in nothing but their layout.

The outline of a tree is what is left when comments and positions are forgotten: kinds, roles, the
texts of names, numbers and strings, and the texts around the substitutions of template literals. Two
programs with one outline differ in the white space and the comments between their tokens. Their nodes
stand in pairs, and walks over both go in step if they do so at each pair and pass over comments.

Owns: outlines, nodes in the same place of two trees, and walks that go in step.
Does not own: what a visitor does.
-/

namespace PatternScript.Script

/-- A tree without comments and positions. -/
inductive Outline where
  | mk (kind : Kind) (role : Option Role) (word : Option (List Char)) (quasis : List (List Char))
      (parts : List Outline)

/-- Nodes of the kind are names, numbers or strings. -/
def Kind.isWord : Kind → Bool
  | .identifier | .propertyIdentifier | .privatePropertyIdentifier | .shorthandPropertyIdentifier
  | .shorthandPropertyIdentifierPattern | .statementIdentifier | .number | .string => true
  | _ => false

namespace Node

/-- The text of a name, a number, a string or a property. -/
def word? (source : SourceText) (node : Node) : Option (List Char) :=
  if node.kind.isWord || node.role == some .property then some (source.slice node.range) else none

/-- The texts before, between and behind nodes that stand between two places. -/
def textsAround (source : SourceText) (stop : Nat) : Nat → List Node → List (List Char)
  | start, [] => [source.slice ⟨start, stop⟩]
  | start, node :: rest => source.slice ⟨start, node.start⟩ :: textsAround source stop node.stop rest

/-- The raw texts of a template literal around its substitutions. -/
def quasis (source : SourceText) (node : Node) : List (List Char) :=
  if node.kind = .templateString then
    textsAround source (node.stop - 1) (node.start + 1)
      (node.values.filter fun child => child.kind == .templateSubstitution)
  else []

mutual

/-- The tree without comments and positions. -/
def outline (source : SourceText) : Node → Outline
  | .mk kind role range children =>
      let node := Node.mk kind role range children
      .mk kind role (node.word? source) (node.quasis source) (outlines source children)

/-- The outlines of some trees, comments left out. -/
def outlines (source : SourceText) : List Node → List Outline
  | [] => []
  | node :: rest =>
      if node.kind.isExtra then outlines source rest
      else outline source node :: outlines source rest

end

theorem outlines_eq_map (source : SourceText) (nodes : List Node) :
    outlines source nodes =
      (nodes.filter fun node => !node.kind.isExtra).map (outline source) := by
  induction nodes with
  | nil => rfl
  | cons node rest inductionHypothesis =>
      rw [outlines, inductionHypothesis]
      by_cases isExtra : node.kind.isExtra = true
      · simp [isExtra]
      · simp [isExtra]

theorem outline_eq (source : SourceText) (node : Node) :
    node.outline source =
      .mk node.kind node.role (node.word? source) (node.quasis source)
        (node.values.map (outline source)) := by
  cases node
  rw [outline, outlines_eq_map]
  rfl

/-- The first of the texts around the substitutions is the one before them. -/
theorem head?_quasis (source : SourceText) {node : Node} (isTemplate : node.kind = .templateString) :
    (node.quasis source).head? = some (firstQuasi source node) := by
  rw [quasis, if_pos isTemplate, firstQuasi, ← List.head?_filter]
  cases node.values.filter fun child => child.kind == .templateSubstitution <;> rfl

/-! ## Trees with one outline -/

/-- Two well-formed trees over two texts differ in nothing but the layout. -/
structure SameButLayout (source source' : SourceText) (left right : Node) : Prop where
  formed : left.WellFormed source.chars
  formed' : right.WellFormed source'.chars
  outline : left.outline source = right.outline source'

namespace SameButLayout

variable {source source' : SourceText} {left right : Node}

theorem fields (same : SameButLayout source source' left right) :
    left.kind = right.kind ∧ left.role = right.role ∧ left.word? source = right.word? source' ∧
      left.quasis source = right.quasis source' ∧
      left.values.map (Node.outline source) = right.values.map (Node.outline source') := by
  have outlines := same.outline
  rw [outline_eq, outline_eq] at outlines
  exact Outline.mk.inj outlines

theorem kind (same : SameButLayout source source' left right) : left.kind = right.kind :=
  same.fields.1

theorem role (same : SameButLayout source source' left right) : left.role = right.role :=
  same.fields.2.1

theorem word (same : SameButLayout source source' left right)
    (isWord : left.kind.isWord = true ∨ left.role = some .property) :
    source.slice left.range = source'.slice right.range := by
  have holds : (left.kind.isWord || left.role == some .property) = true := by simpa using isWord
  have words := same.fields.2.2.1
  rw [word?, word?, ← same.kind, ← same.role, if_pos holds, if_pos holds] at words
  exact Option.some.inj words

theorem firstQuasi (same : SameButLayout source source' left right)
    (isTemplate : left.kind = .templateString) :
    firstQuasi source left = PatternScript.firstQuasi source' right := by
  have first := congrArg List.head? same.fields.2.2.2.1
  rw [head?_quasis source isTemplate, head?_quasis source' (same.kind ▸ isTemplate)] at first
  exact Option.some.inj first

theorem values (same : SameButLayout source source' left right) :
    List.Forall₂ (SameButLayout source source') left.values right.values := by
  have parts := same.fields.2.2.2.2
  have formed : ∀ value ∈ left.values, value.WellFormed source.chars := fun value member =>
    same.formed.child (mem_children_of_mem_values member)
  have formed' : ∀ value ∈ right.values, value.WellFormed source'.chars := fun value member =>
    same.formed'.child (mem_children_of_mem_values member)
  generalize left.values = values at parts formed
  generalize right.values = values' at parts formed'
  induction values generalizing values' with
  | nil =>
      obtain rfl := List.map_eq_nil_iff.mp parts.symm
      exact .nil
  | cons value rest inductionHypothesis =>
      obtain ⟨value', rest', rfl, here, behind⟩ := List.map_eq_cons_iff.mp parts.symm
      rw [List.forall_mem_cons] at formed formed'
      exact .cons ⟨formed.1, formed'.1, here.symm⟩
        (inductionHypothesis formed.2 rest' behind.symm formed'.2)

/-- The same parts are played, by values that differ in nothing but the layout. -/
theorem child? (same : SameButLayout source source' left right) (part : Role) :
    Option.Rel (SameButLayout source source') (left.child? part) (right.child? part) := by
  have values := same.values
  rw [same.formed.child?_eq_find?_values, same.formed'.child?_eq_find?_values]
  generalize left.values = list, right.values = list' at values
  induction values with
  | nil => exact .none
  | cons atHead _ inductionHypothesis =>
      rw [List.find?_cons, List.find?_cons, atHead.role]
      split
      · exact .some atHead
      · exact inductionHypothesis

end SameButLayout

/-! ## Nodes in the same place -/

/-- A node of one tree and a node of another are reached by the same way down, comments not counted. -/
inductive SamePlace (left right : Node) : Node → Node → Prop where
  | root : SamePlace left right left right
  | value {above above' node node' : Node} (place : Nat) (atAbove : SamePlace left right above above')
      (here : above.values[place]? = some node) (here' : above'.values[place]? = some node') :
      SamePlace left right node node'

theorem SamePlace.sameButLayout {source source' : SourceText} {left right node node' : Node}
    (same : SameButLayout source source' left right) (place : SamePlace left right node node') :
    SameButLayout source source' node node' := by
  induction place with
  | root => exact same
  | value place _ here here' inductionHypothesis =>
      obtain ⟨inLeft, rfl⟩ := List.getElem?_eq_some_iff.mp here
      obtain ⟨inRight, rfl⟩ := List.getElem?_eq_some_iff.mp here'
      exact (List.forall₂_iff_get.mp inductionHypothesis.values).2 place inLeft inRight

/-! ## Walks in step -/

section Walks

variable {σ τ : Type}

theorem visitTree_leaf {visit : Visitor σ} {ancestors : List Node} {node : Node} {state : σ}
    (leaf : node.children = []) :
    node.visitTree visit ancestors state = (visit ancestors node state).2 := by
  obtain ⟨kind, role, range, children⟩ := node
  obtain rfl : children = [] := leaf
  rw [visitTree]
  generalize visit ancestors (.mk kind role range []) state = answer
  obtain ⟨action, state⟩ := answer
  cases action <;> rfl

theorem visitTrees_append (visit : Visitor σ) (ancestors before after : List Node) (state : σ) :
    visitTrees visit ancestors (before ++ after) state =
      visitTrees visit ancestors after (visitTrees visit ancestors before state) := by
  induction before generalizing state with
  | nil => rfl
  | cons node rest inductionHypothesis =>
      rw [List.cons_append, visitTrees, visitTrees, inductionHypothesis]

/-- What visits of comments keep is kept by a walk over comments. -/
theorem visitTrees_extras {visit : Visitor σ} {kept : σ → Prop} {ancestors nodes : List Node}
    (each : ∀ node state, node.kind.isExtra = true → kept state →
      kept (visit ancestors node state).2)
    (extras : ∀ node ∈ nodes, node.kind.isExtra = true ∧ node.children = []) {state : σ}
    (atStart : kept state) : kept (visitTrees visit ancestors nodes state) := by
  induction nodes generalizing state with
  | nil => exact atStart
  | cons node rest inductionHypothesis =>
      rw [List.forall_mem_cons] at extras
      rw [visitTrees, visitTree_leaf extras.1.2]
      exact inductionHypothesis extras.2 (each node state extras.1.1 atStart)

/-- Two visitors go in step over two trees: at nodes in the same place they go the same way, and their
states stay related there and when one of them visits a comment. -/
structure InStep (left right : Node) (visit : Visitor σ) (visit' : Visitor τ)
    (related : σ → τ → Prop) : Prop where
  step : ∀ {ancestors ancestors' : List Node} {node node' : Node} {state : σ} {state' : τ},
    SamePlace left right node node' →
      ancestors.head?.map kind = ancestors'.head?.map kind → related state state' →
        (visit ancestors node state).1 = (visit' ancestors' node' state').1 ∧
          related (visit ancestors node state).2 (visit' ancestors' node' state').2
  extra : ∀ {ancestors : List Node} {node : Node} {state : σ} {state' : τ},
    node.kind.isExtra = true → related state state' → related (visit ancestors node state).2 state'
  extra' : ∀ {ancestors : List Node} {node : Node} {state : σ} {state' : τ},
    node.kind.isExtra = true → related state state' → related state (visit' ancestors node state').2

namespace InStep

variable {source source' : SourceText} {left right : Node} {visit : Visitor σ} {visit' : Visitor τ}
  {related : σ → τ → Prop}

/-- Walks over the children of two nodes stay related if the walks over the values do. -/
theorem visitTrees (inStep : InStep left right visit visit' related)
    {ancestors ancestors' nodes nodes' : List Node}
    (leaves : ∀ node ∈ nodes, node.kind.isExtra = true → node.children = [])
    (leaves' : ∀ node ∈ nodes', node.kind.isExtra = true → node.children = [])
    (each : List.Forall₂
      (fun node node' => ∀ state state', related state state' →
        related (node.visitTree visit ancestors state) (node'.visitTree visit' ancestors' state'))
      (nodes.filter fun node => !node.kind.isExtra) (nodes'.filter fun node => !node.kind.isExtra))
    {state : σ} {state' : τ} (atStart : related state state') :
    related (Node.visitTrees visit ancestors nodes state)
      (Node.visitTrees visit' ancestors' nodes' state') := by
  induction nodes generalizing nodes' state state' with
  | nil =>
      rw [List.filter_nil, List.forall₂_nil_left_iff, List.filter_eq_nil_iff] at each
      refine visitTrees_extras (fun _ _ => inStep.extra') ?_ atStart
      intro node member
      have isExtra : node.kind.isExtra = true := by simpa using each node member
      exact ⟨isExtra, leaves' node member isExtra⟩
  | cons node rest inductionHypothesis =>
      rw [List.forall_mem_cons] at leaves
      rw [Node.visitTrees]
      by_cases isExtra : node.kind.isExtra = true
      · rw [List.filter_cons_of_neg (by simpa using isExtra)] at each
        rw [visitTree_leaf (leaves.1 isExtra)]
        exact inductionHypothesis leaves.2 leaves' each (inStep.extra isExtra atStart)
      · rw [List.filter_cons_of_pos (by simpa using isExtra), List.forall₂_cons_left_iff] at each
        obtain ⟨node', values', here, behind, split⟩ := each
        -- Comments may stand before the partner of the first value.
        obtain ⟨before, after, rfl, extras, _, rfl⟩ := List.filter_eq_cons_iff.mp split
        simp only [List.forall_mem_append, List.forall_mem_cons] at leaves'
        rw [visitTrees_append, Node.visitTrees]
        refine inductionHypothesis leaves.2 leaves'.2.2 behind (here _ _ ?_)
        refine visitTrees_extras (fun _ _ => inStep.extra') ?_ atStart
        intro comment member
        have isExtra : comment.kind.isExtra = true := by simpa using extras comment member
        exact ⟨isExtra, leaves'.1 comment member isExtra⟩

/-- Walks that go in step stay related over trees that differ in nothing but the layout. -/
theorem visitTree (inStep : InStep left right visit visit' related)
    (same : SameButLayout source source' left right) (node : Node) :
    ∀ {node' : Node} {ancestors ancestors' : List Node} {state : σ} {state' : τ},
      SamePlace left right node node' →
      ancestors.head?.map kind = ancestors'.head?.map kind → related state state' →
        related (node.visitTree visit ancestors state) (node'.visitTree visit' ancestors' state') := by
  induction node using Node.induction with
  | step kind role range children inductionHypothesis =>
      intro node' ancestors ancestors' state state' atNode parents atStart
      obtain ⟨sameWay, here⟩ := inStep.step atNode parents atStart
      have sameNodes := atNode.sameButLayout same
      obtain ⟨kind', role', range', children'⟩ := node'
      rw [Node.visitTree, Node.visitTree]
      generalize visit ancestors (.mk kind role range children) state = answer at *
      generalize visit' ancestors' (.mk kind' role' range' children') state' = answer' at *
      obtain ⟨action, state⟩ := answer
      obtain ⟨action', state'⟩ := answer'
      obtain rfl : action = action' := sameWay
      cases action with
      | skip => exact here
      | descend =>
          refine inStep.visitTrees ?_ ?_ ?_ here
          · intro child member isExtra
            exact List.isEmpty_iff.mp ((sameNodes.formed.child member).placed.extra isExtra).2
          · intro child member isExtra
            exact List.isEmpty_iff.mp ((sameNodes.formed'.child member).placed.extra isExtra).2
          · obtain ⟨sameLength, _⟩ := List.forall₂_iff_get.mp sameNodes.values
            refine List.forall₂_iff_get.mpr ⟨sameLength, ?_⟩
            intro place inLeft inRight state state' related
            have member := List.mem_of_mem_filter (List.get_mem _ ⟨place, inLeft⟩)
            refine inductionHypothesis _ member (.value place atNode ?_ ?_) ?_ related
            · exact List.getElem?_eq_getElem inLeft
            · exact List.getElem?_eq_getElem inRight
            · exact congrArg some sameNodes.kind

/-- The same for walks with a cursor. -/
theorem traverse (inStep : InStep left right visit visit' related)
    (same : SameButLayout source source' left right) {state : σ} {state' : τ}
    (atStart : related state state') :
    related ((Cursor.ofRoot left).traverse visit state).2
      ((Cursor.ofRoot right).traverse visit' state').2 := by
  rw [Cursor.traverse_eq_visitTree, Cursor.traverse_eq_visitTree]
  exact inStep.visitTree same left .root rfl atStart

end InStep

/-- The walk of a visitor is that of another visitor whose state holds more. -/
theorem visitTree_project {visit : Visitor σ} {visit' : Visitor τ} (project : σ → τ)
    (each : ∀ ancestors node state, visit' ancestors node (project state) =
      ((visit ancestors node state).1, project (visit ancestors node state).2)) (node : Node) :
    ∀ ancestors state, node.visitTree visit' ancestors (project state) =
      project (node.visitTree visit ancestors state) := by
  induction node using Node.induction with
  | step kind role range children inductionHypothesis =>
      intro ancestors state
      have below : ∀ (state : σ) (above : List Node), Node.visitTrees visit' above children (project state) =
          project (Node.visitTrees visit above children state) := by
        induction children with
        | nil => exact fun _ _ => rfl
        | cons child rest inRest =>
            intro state above
            rw [List.forall_mem_cons] at inductionHypothesis
            rw [Node.visitTrees, Node.visitTrees, inductionHypothesis.1, inRest inductionHypothesis.2]
      rw [visitTree, visitTree, each]
      generalize visit ancestors (.mk kind role range children) state = answer
      obtain ⟨action, state⟩ := answer
      cases action with
      | skip => rfl
      | descend => exact below state _

end Walks

end Node

end PatternScript.Script
