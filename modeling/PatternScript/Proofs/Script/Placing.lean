import PatternScript.Proofs.Script.Expressions
import PatternScript.Proofs.Script.WellFormed

/-!
Contract: the tree of a phrase lies over the text of the phrase.

Where the text of a phrase stands in a program, the nodes of its tree cover the texts of its parts, in
their order, and carry their delimiters.

Owns: parts of a text that stand at a byte, and the tree of a sound phrase over its text.
Does not own: how the tree is read from the text.
-/

namespace PatternScript.Text

/-- The part stands in the text at a byte. -/
def StandsAt (text : List Char) (start : Nat) (part : List Char) : Prop :=
  ∃ before after, text = before ++ (part ++ after) ∧ byteLength before = start

namespace StandsAt

variable {text part more : List Char} {start : Nat}

theorem whole (text : List Char) : StandsAt text 0 text :=
  ⟨[], [], by simp, rfl⟩

theorem first (stands : StandsAt text start part) : Boundary text start := by
  obtain ⟨before, after, rfl, rfl⟩ := stands
  exact boundary_iff.mpr ⟨before, _, rfl, rfl⟩

theorem last (stands : StandsAt text start part) : Boundary text (start + byteLength part) := by
  obtain ⟨before, after, rfl, rfl⟩ := stands
  exact boundary_iff.mpr ⟨before ++ part, after, by simp, by simp⟩

theorem slice_eq (stands : StandsAt text start part) :
    slice text ⟨start, start + byteLength part⟩ = part := by
  obtain ⟨before, after, rfl, rfl⟩ := stands
  exact slice_eq_of_append rfl rfl

theorem left (stands : StandsAt text start (part ++ more)) : StandsAt text start part := by
  obtain ⟨before, after, rfl, rfl⟩ := stands
  exact ⟨before, more ++ after, by simp, rfl⟩

theorem right (stands : StandsAt text start (part ++ more)) :
    StandsAt text (start + byteLength part) more := by
  obtain ⟨before, after, rfl, rfl⟩ := stands
  exact ⟨before ++ part, after, by simp, by simp⟩

/-- What stands behind a character of one byte. -/
theorem tail {c : Char} (stands : StandsAt text start (c :: part)) (size : c.utf8Size = 1) :
    StandsAt text (start + 1) part := by
  have behind := @right text [c] part start stands
  rwa [show byteLength [c] = 1 by simp [size]] at behind

end StandsAt

end PatternScript.Text

namespace PatternScript.Script

open Text (StandsAt byteLength)

/-! ## Nodes without a shape of their own -/

theorem Node.WellFormed.of_children {text : List Char} {node : Node} (placed : node.Placed text)
    (each : ∀ child ∈ node.children, child.WellFormed text) : node.WellFormed text := by
  intro other member
  obtain ⟨kind, role, range, children⟩ := node
  rw [Node.preorder] at member
  rcases List.mem_cons.mp member with rfl | below
  · exact placed
  · obtain ⟨child, isChild, inChild⟩ := Node.mem_preorderAll.mp below
    exact each child isChild other inChild

/-- The kinds of nodes whose parts or delimiters are prescribed. -/
def Kind.shaped : List Kind :=
  [.callExpression, .labeledStatement, .arguments, .templateString, .string]

/-- The nodes of this kind only have to cover their children. -/
def Kind.isPlain (kind : Kind) : Bool :=
  !kind.isExtra && !Kind.shaped.contains kind

theorem Kind.ne_of_isPlain {kind special : Kind} (plain : kind.isPlain = true)
    (member : special ∈ Kind.shaped) : kind ≠ special := by
  rintro rfl
  rw [Kind.isPlain, List.contains_iff_mem.mpr member] at plain
  simp at plain

theorem Node.placed_of_isPlain {text : List Char} {kind : Kind} {role : Option Role} {start stop : Nat}
    {children : List Node} (plain : kind.isPlain = true) (first : Text.Boundary text start)
    (last : Text.Boundary text stop) (forward : start ≤ stop)
    (inside : ∀ child ∈ children, start ≤ child.start ∧ child.stop ≤ stop)
    (ordered : children.Pairwise fun left right => left.stop ≤ right.start) :
    (Node.mk kind role ⟨start, stop⟩ children).Placed text := by
  have notExtra : kind.isExtra = false := by
    rw [Kind.isPlain, Bool.and_eq_true, Bool.not_eq_true'] at plain
    exact plain.1
  exact {
    first := first
    last := last
    forward := forward
    inside := inside
    ordered := ordered
    extra := fun isExtra => absurd isExtra (by simp [Node.kind, notExtra])
    call := fun same => absurd same (Kind.ne_of_isPlain plain (by simp [Kind.shaped]))
    labeled := fun same => absurd same (Kind.ne_of_isPlain plain (by simp [Kind.shaped]))
    arguments := fun same => absurd same (Kind.ne_of_isPlain plain (by simp [Kind.shaped]))
    template := fun same => absurd same (Kind.ne_of_isPlain plain (by simp [Kind.shaped]))
    string := fun same => absurd same (Kind.ne_of_isPlain plain (by simp [Kind.shaped])) }

/-! ## Trees of lists -/

namespace Phrase

variable {text : List Char} {start : Nat} {items : List Phrase}

theorem byteLength_moreText_cons (item : Phrase) (more : List Phrase) :
    byteLength (moreText (item :: more)) = 2 + item.bytes + byteLength (moreText more) := by
  simp only [moreText, bytes, Text.byteLength_cons, Text.byteLength_append,
    show ','.utf8Size = 1 from rfl, show ' '.utf8Size = 1 from rfl]
  omega

theorem moreTrees_within {node : Node} (member : node ∈ moreTrees start items) :
    start + 2 ≤ node.start ∧ node.stop ≤ start + byteLength (moreText items) := by
  induction items generalizing start with
  | nil => cases member
  | cons item more inductionHypothesis =>
      rw [byteLength_moreText_cons]
      rcases List.mem_cons.mp member with rfl | later
      · rw [start_tree, stop_tree]
        omega
      · have := inductionHypothesis later
        omega

theorem moreTrees_ordered (start : Nat) (items : List Phrase) :
    (moreTrees start items).Pairwise fun left right => left.stop ≤ right.start := by
  induction items generalizing start with
  | nil => exact .nil
  | cons item more inductionHypothesis =>
      refine .cons (fun node later => ?_) (inductionHypothesis _)
      have := moreTrees_within later
      rw [stop_tree]
      omega

/-- The trees of a list stand in its text. -/
theorem trees_within {node : Node} (member : node ∈ trees start items) :
    start ≤ node.start ∧ node.stop ≤ start + byteLength (listText items) := by
  cases items with
  | nil => cases member
  | cons first more =>
      rw [listText, Text.byteLength_append]
      rcases List.mem_cons.mp member with rfl | later
      · rw [start_tree, stop_tree]
        exact ⟨Nat.le_refl _, by rw [bytes]; omega⟩
      · have := moreTrees_within later
        rw [bytes] at this
        omega

theorem trees_ordered (start : Nat) (items : List Phrase) :
    (trees start items).Pairwise fun left right => left.stop ≤ right.start := by
  cases items with
  | nil => exact .nil
  | cons first more =>
      refine .cons (fun node later => ?_) (moreTrees_ordered _ _)
      have := moreTrees_within later
      rw [stop_tree]
      omega

/-- What holds of the tree of an item wherever the item stands holds of all trees of a list that
stands somewhere. -/
theorem forall_moreTrees_standing {holds : Node → Prop}
    (each : ∀ item ∈ items, ∀ start, StandsAt text start item.text → holds (item.tree start))
    (stands : StandsAt text start (moreText items)) : ∀ node ∈ moreTrees start items, holds node := by
  induction items generalizing start with
  | nil => exact fun _ member => absurd member List.not_mem_nil
  | cons item more inductionHypothesis =>
      rw [List.forall_mem_cons] at each
      rw [moreText] at stands
      have here : StandsAt text (start + 2) (item.text ++ moreText more) := (stands.tail rfl).tail rfl
      exact List.forall_mem_cons.mpr
        ⟨each.1 _ here.left, inductionHypothesis each.2 here.right⟩

theorem forall_trees_standing {holds : Node → Prop}
    (each : ∀ item ∈ items, ∀ start, StandsAt text start item.text → holds (item.tree start))
    (stands : StandsAt text start (listText items)) : ∀ node ∈ trees start items, holds node := by
  cases items with
  | nil => exact fun _ member => absurd member List.not_mem_nil
  | cons first more =>
      rw [List.forall_mem_cons] at each
      rw [listText] at stands
      exact List.forall_mem_cons.mpr
        ⟨each.1 _ stands.left, forall_moreTrees_standing each.2 stands.right⟩

end Phrase

/-! ## Trees of phrases -/

theorem Node.wellFormed_leaf {text : List Char} {kind : Kind} {role : Option Role} {start stop : Nat}
    (plain : kind.isPlain = true) (first : Text.Boundary text start) (last : Text.Boundary text stop)
    (forward : start ≤ stop) : (Node.mk kind role ⟨start, stop⟩ []).WellFormed text :=
  .of_children (placed_of_isPlain plain first last forward (by simp) .nil) (by simp [Node.children])

section
variable (node : Node) (given : Role)

@[simp]
theorem Node.kind_withRole : (node.withRole given).kind = node.kind := by
  cases node with
  | mk kind role range children => rfl

@[simp]
theorem Node.role_withRole : (node.withRole given).role = some given := by
  cases node with
  | mk kind role range children => rfl

@[simp]
theorem Node.start_withRole : (node.withRole given).start = node.start := by
  cases node with
  | mk kind role range children => rfl

@[simp]
theorem Node.stop_withRole : (node.withRole given).stop = node.stop := by
  cases node with
  | mk kind role range children => rfl

end

theorem Node.wellFormed_withRole {text : List Char} {node : Node} {role : Role}
    (wellFormed : node.WellFormed text) (notExtra : node.kind.isExtra = false) :
    (node.withRole role).WellFormed text := by
  obtain ⟨kind, old, range, children⟩ := node
  have placed := wellFormed.placed
  refine .of_children ?_ fun child member => wellFormed.child member
  exact {
    first := placed.first
    last := placed.last
    forward := placed.forward
    inside := placed.inside
    ordered := placed.ordered
    extra := fun isExtra => absurd isExtra (by simpa [Node.kind, Node.withRole] using notExtra)
    call := placed.call
    labeled := placed.labeled
    arguments := fun isList =>
      have delimited := placed.arguments isList
      ⟨delimited.long, delimited.opens, delimited.closes, delimited.between⟩
    template := fun isTemplate =>
      have delimited := placed.template isTemplate
      ⟨delimited.long, delimited.opens, delimited.closes, delimited.between⟩
    string := fun isString => (placed.string isString).imp
      (fun delimited => ⟨delimited.long, delimited.opens, delimited.closes, delimited.between⟩)
      (fun delimited => ⟨delimited.long, delimited.opens, delimited.closes, delimited.between⟩) }

/-- Two nodes one behind the other stand in order in what is around both. -/
theorem Node.two_ordered {start stop : Nat} {left right : Node} (first : start ≤ left.start)
    (forward : left.start ≤ left.stop) (apart : left.stop ≤ right.start)
    (further : right.start ≤ right.stop) (last : right.stop ≤ stop) :
    (∀ child ∈ [left, right], start ≤ child.start ∧ child.stop ≤ stop) ∧
      [left, right].Pairwise fun left right => left.stop ≤ right.start := by
  refine ⟨List.forall_mem_cons.mpr ⟨by omega, List.forall_mem_cons.mpr ⟨by omega, by simp⟩⟩, ?_⟩
  exact .cons (List.forall_mem_cons.mpr ⟨apart, by simp⟩) (.cons (by simp) .nil)

namespace Phrase

variable {text : List Char} {start : Nat}

theorem isExtra_tree (phrase : Phrase) (start : Nat) : (phrase.tree start).kind.isExtra = false := by
  cases phrase with
  | _ => rfl

theorem bytes_pos {phrase : Phrase} (isPhrase : phrase.isPhrase = true)
    (notPair : phrase.isPair = false) : 0 < phrase.bytes := by
  have nonempty : phrase.text ≠ [] := by
    cases Grammar.lead_text phrase isPhrase notPair with
    | @word name after free spelled _ =>
        intro empty
        rw [spelled, List.append_eq_nil_iff] at empty
        rw [empty.1] at free
        exact absurd free (by decide)
    | mark _ spelled => simp [spelled]
    | digit _ spelled => simp [spelled]
  exact Nat.pos_of_ne_zero fun zero => nonempty (Text.eq_nil_of_byteLength_eq_zero zero)

theorem wellFormed_quoted {word : List Char} (stands : StandsAt text start (Phrase.text (.quoted word))) :
    (tree start (.quoted word)).WellFormed text := by
  have sliced := stands.slice_eq
  have delimited : (tree start (.quoted word)).Delimited text '"' '"' := by
    refine ⟨?_, ?_, ?_, by simp [tree, Node.children]⟩
    · show 2 ≤ (Text.slice text ⟨start, start + byteLength (Phrase.text (.quoted word))⟩).length
      rw [sliced]
      simp [Phrase.text]
    · show (Text.slice text ⟨start, start + byteLength (Phrase.text (.quoted word))⟩).head? = _
      rw [sliced]
      rfl
    · show (Text.slice text ⟨start, start + byteLength (Phrase.text (.quoted word))⟩).getLast? = _
      rw [sliced, Phrase.text, ← List.cons_append, List.getLast?_concat]
  refine .of_children ?_ (by simp [tree, Node.children])
  exact {
    first := stands.first
    last := stands.last
    forward := Nat.le_add_right _ _
    inside := by simp [tree, Node.children]
    ordered := .nil
    extra := fun isExtra => by cases isExtra
    call := fun isCall => by cases isCall
    labeled := fun isLabeled => by cases isLabeled
    arguments := fun isList => by cases isList
    template := fun isTemplate => by cases isTemplate
    string := fun _ => .inl delimited }

theorem byteLength_delimited {o c : Char} (opening : o.utf8Size = 1) (closing : c.utf8Size = 1)
    (inner : List Char) : byteLength (o :: (inner ++ [c])) = byteLength inner + 2 := by
  simp only [Text.byteLength_cons, Text.byteLength_append, Text.byteLength_nil, opening, closing]
  omega

/-- A list in brackets or braces covers its items. -/
theorem wellFormed_list {kind : Kind} {items : List Phrase} {o c : Char} (plain : kind.isPlain = true)
    (opening : o.utf8Size = 1) (closing : c.utf8Size = 1)
    (stands : StandsAt text start (o :: (listText items ++ [c])))
    (each : ∀ node ∈ trees (start + 1) items, node.WellFormed text) :
    (Node.mk kind none ⟨start, start + byteLength (o :: (listText items ++ [c]))⟩
      (trees (start + 1) items)).WellFormed text := by
  have size := byteLength_delimited opening closing (listText items)
  refine .of_children (Node.placed_of_isPlain plain stands.first stands.last (Nat.le_add_right ..)
    (fun child member => ?_) (trees_ordered _ _)) each
  have := trees_within member
  omega

/-- Arguments stand in parentheses. -/
theorem wellFormed_arguments {given : List Phrase}
    (stands : StandsAt text start ('(' :: (listText given ++ [')'])))
    (each : ∀ node ∈ trees (start + 1) given, node.WellFormed text) :
    (Node.mk .arguments (some .arguments) ⟨start, start + byteLength ('(' :: (listText given ++ [')']))⟩
      (trees (start + 1) given)).WellFormed text := by
  have sliced := stands.slice_eq
  have size := @byteLength_delimited '(' ')' rfl rfl (listText given)
  have between : ∀ child ∈ trees (start + 1) given, start < child.start ∧
      child.stop < start + byteLength ('(' :: (listText given ++ [')'])) := by
    intro child member
    have := trees_within member
    omega
  refine .of_children ?_ each
  exact {
    first := stands.first
    last := stands.last
    forward := Nat.le_add_right _ _
    inside := fun child member =>
      ⟨Nat.le_of_lt (between child member).1, Nat.le_of_lt (between child member).2⟩
    ordered := trees_ordered _ _
    extra := fun isExtra => by cases isExtra
    call := fun isCall => by cases isCall
    labeled := fun isLabeled => by cases isLabeled
    arguments := fun _ => by
      refine ⟨?_, ?_, ?_, between⟩
      · show 2 ≤ (Text.slice text ⟨start, _⟩).length
        rw [sliced]
        simp
      · show (Text.slice text ⟨start, _⟩).head? = _
        rw [sliced]
        rfl
      · show (Text.slice text ⟨start, _⟩).getLast? = _
        rw [sliced, ← List.cons_append, List.getLast?_concat]
    template := fun isTemplate => by cases isTemplate
    string := fun isString => by cases isString }

/-- A call is a function and its arguments. -/
theorem wellFormed_call {function : Phrase} {given : List Phrase} (covers : 0 < function.bytes)
    (stands : StandsAt text start (Phrase.text (.call function given)))
    (functionTree : StandsAt text start function.text → (tree start function).WellFormed text)
    (each : StandsAt text (start + function.bytes + 1) (listText given) →
      ∀ node ∈ trees (start + function.bytes + 1) given, node.WellFormed text) :
    (tree start (.call function given)).WellFormed text := by
  rw [Phrase.text] at stands
  have opened : StandsAt text (start + function.bytes) ('(' :: (listText given ++ [')'])) := stands.right
  have size : bytes (.call function given) =
      function.bytes + byteLength ('(' :: (listText given ++ [')'])) := by
    rw [bytes, Phrase.text, Text.byteLength_append]
    rfl
  have long := @byteLength_delimited '(' ')' rfl rfl (listText given)
  have stop : start + bytes (.call function given) =
      start + function.bytes + byteLength ('(' :: (listText given ++ [')'])) := by omega
  have list := wellFormed_arguments opened (each (opened.tail rfl).left)
  rw [← stop] at list
  have called : ((tree start function).withRole .function).WellFormed text :=
    Node.wellFormed_withRole (functionTree stands.left) (isExtra_tree _ _)
  have first : ((tree start function).withRole .function).start = start := by
    rw [Node.start_withRole, start_tree]
  have behind : ((tree start function).withRole .function).stop = start + function.bytes := by
    rw [Node.stop_withRole, stop_tree]
  obtain ⟨inside, ordered⟩ := @Node.two_ordered start (start + bytes (.call function given))
    ((tree start function).withRole .function) (.mk .arguments (some .arguments)
      ⟨start + function.bytes, start + bytes (.call function given)⟩
      (trees (start + function.bytes + 1) given))
    (Nat.le_of_eq first.symm) (by omega) (Nat.le_of_eq behind)
    (by simp only [Node.start, Node.stop, Node.range]; omega) (Nat.le_refl _)
  refine .of_children ?_ (List.forall_mem_cons.mpr ⟨called, List.forall_mem_cons.mpr ⟨list, by simp⟩⟩)
  exact {
    first := stands.first
    last := stands.last
    forward := Nat.le_add_right _ _
    inside := inside
    ordered := ordered
    extra := fun isExtra => by cases isExtra
    call := fun _ => by
      have values : (tree start (.call function given)).values =
          (tree start (.call function given)).children :=
        List.filter_eq_self.mpr (List.forall_mem_cons.mpr
          ⟨by simp [isExtra_tree], List.forall_mem_cons.mpr ⟨rfl, by simp⟩⟩)
      rw [Node.IsCall, values]
      refine ⟨?_, List.forall_mem_cons.mpr ⟨⟨by omega, by simp⟩,
        List.forall_mem_cons.mpr ⟨⟨?_, fun _ => .inl rfl⟩, by simp⟩⟩⟩
      · simp only [tree, Node.children, List.map_cons, List.map_nil, Node.role_withRole]
        rfl
      · simp only [Node.start, Node.stop, Node.range]
        omega
    labeled := fun isLabeled => by cases isLabeled
    arguments := fun isList => by cases isList
    template := fun isTemplate => by cases isTemplate
    string := fun isString => by cases isString }

/-- A name or a literal stays where it is as the name of a member. -/
theorem wellFormed_asKey {key : Phrase} (isKey : key.isKey = true) (stands : StandsAt text start key.text) :
    (asKey (tree start key)).WellFormed text ∧ (asKey (tree start key)).start = start ∧
      (asKey (tree start key)).stop = start + key.bytes := by
  cases key with
  | quoted word => exact ⟨wellFormed_quoted stands, rfl, rfl⟩
  | name word =>
      exact ⟨Node.wellFormed_leaf rfl stands.first stands.last (Nat.le_add_right ..), rfl, rfl⟩
  | _ => cases isKey

/-- The tree of a sound phrase lies over the text of the phrase, wherever that stands. -/
theorem wellFormed_tree (phrase : Phrase) : phrase.isPhrase = true → phrase.isSound = true →
    ∀ start, StandsAt text start phrase.text → (phrase.tree start).WellFormed text := by
  have listed : ∀ {pairs items}, arePhrases pairs items = true → areSound items = true →
      (∀ item ∈ items, item.isPhrase = true → item.isSound = true → ∀ start,
        StandsAt text start item.text → (item.tree start).WellFormed text) →
      ∀ {start}, StandsAt text start (listText items) →
        ∀ node ∈ trees start items, node.WellFormed text :=
    fun arePhrases areSound each _ stands => forall_trees_standing (fun item member =>
      each item member (arePhrases_iff.mp arePhrases item member).1
        (areSound_iff.mp areSound item member)) stands
  induction phrase using Phrase.induction with
  | quoted word => exact fun _ _ start stands => wellFormed_quoted stands
  | number value =>
      exact fun _ _ start stands => Node.wellFormed_leaf rfl stands.first stands.last (Nat.le_add_right ..)
  | name word =>
      exact fun _ _ start stands => Node.wellFormed_leaf rfl stands.first stands.last (Nat.le_add_right ..)
  | access base property inductionHypothesis =>
      intro isPhrase isSound start stands
      simp only [Phrase.isPhrase, Bool.and_eq_true] at isPhrase
      rw [Phrase.text] at stands
      have named : StandsAt text (start + base.bytes + 1) property := stands.right.tail rfl
      have size : bytes (.access base property) = base.bytes + (1 + byteLength property) := by
        simp [bytes, Phrase.text, show '.'.utf8Size = 1 from rfl]
      have stop : start + bytes (.access base property) = start + base.bytes + 1 + byteLength property := by
        omega
      have last := named.last
      rw [← stop] at last
      obtain ⟨inside, ordered⟩ := @Node.two_ordered start (start + bytes (.access base property))
        (tree start base) (.mk .propertyIdentifier (some .property)
          ⟨start + base.bytes + 1, start + bytes (.access base property)⟩ [])
        (Nat.le_of_eq (start_tree base start).symm) (by rw [start_tree, stop_tree]; omega)
        (by rw [stop_tree]; exact Nat.le_succ _) (by simp only [Node.start, Node.stop, Node.range]; omega)
        (Nat.le_refl _)
      refine .of_children (Node.placed_of_isPlain rfl stands.first stands.last (Nat.le_add_right ..)
        inside ordered) ?_
      exact List.forall_mem_cons.mpr ⟨inductionHypothesis isPhrase.1.1 isSound start stands.left,
        List.forall_mem_cons.mpr ⟨Node.wellFormed_leaf rfl named.first last (by omega), by simp⟩⟩
  | call function given function_ih given_ih =>
      intro isPhrase isSound start stands
      simp only [Phrase.isPhrase, Phrase.isSound, Bool.and_eq_true] at isPhrase isSound
      obtain ⟨⟨isFunction, canHave⟩, arePhrases⟩ := isPhrase
      exact wellFormed_call (bytes_pos isFunction (isPair_of_isBase canHave)) stands
        (function_ih isFunction isSound.1 start)
        (fun inner => listed arePhrases isSound.2 given_ih inner)
  | array items inductionHypothesis =>
      intro arePhrases areSound start stands
      have inner : StandsAt text (start + 1) (listText items) := (stands.tail rfl).left
      exact wellFormed_list rfl rfl rfl stands (listed arePhrases areSound inductionHypothesis inner)
  | object members inductionHypothesis =>
      intro arePhrases areSound start stands
      have inner : StandsAt text (start + 1) (listText members) := (stands.tail rfl).left
      exact wellFormed_list rfl rfl rfl stands (listed arePhrases areSound inductionHypothesis inner)
  | pair key value key_ih value_ih =>
      intro isPhrase isSound start stands
      simp only [Phrase.isPhrase, Phrase.isSound, Bool.and_eq_true] at isPhrase isSound
      rw [Phrase.text] at stands
      have second : StandsAt text (start + key.bytes + 2) value.text := (stands.right.tail rfl).tail rfl
      have size : bytes (.pair key value) = key.bytes + (2 + value.bytes) := by
        simp [bytes, Phrase.text, show ':'.utf8Size = 1 from rfl, show ' '.utf8Size = 1 from rfl]
        omega
      obtain ⟨keyTree, first, behind⟩ := wellFormed_asKey isSound.1 stands.left
      obtain ⟨inside, ordered⟩ := @Node.two_ordered start (start + bytes (.pair key value))
        (asKey (tree start key)) (tree (start + key.bytes + 2) value)
        (Nat.le_of_eq first.symm) (by omega) (by rw [behind, start_tree]; omega)
        (by rw [start_tree, stop_tree]; omega) (by rw [stop_tree]; omega)
      refine .of_children (Node.placed_of_isPlain rfl stands.first stands.last (Nat.le_add_right ..)
        inside ordered) ?_
      exact List.forall_mem_cons.mpr ⟨keyTree,
        List.forall_mem_cons.mpr ⟨value_ih isPhrase.1.2 isSound.2 _ second, by simp⟩⟩

end Phrase

end PatternScript.Script
