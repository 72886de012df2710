import PatternScript.Proofs.Script.Readers
import PatternScript.Script.Grammar.Statement

/-!
Contract: the expressions that programs of patterns are mostly made of.

A phrase is built from literals in double quotes, numbers and names by accesses, calls, arrays and
objects. It has a text, the tree that the text stands for, and the number of constructs that are
nested in each other. The name of a member of an object may also be a call, which no grammar allows:
a phrase without such a name is sound.

Owns: phrases, their texts and trees, and which phrases are sound.
Does not own: reading them.
-/

namespace PatternScript.Script

open Reader

/-- An expression, or a member of an object. -/
inductive Phrase where
  /-- A literal in double quotes. -/
  | quoted (text : List Char)
  /-- A number without a sign. -/
  | number (value : Nat)
  /-- A name. -/
  | name (word : List Char)
  /-- A member of a value. -/
  | access (base : Phrase) (property : List Char)
  /-- A call. -/
  | call (function : Phrase) (given : List Phrase)
  /-- An array. -/
  | array (items : List Phrase)
  /-- An object. -/
  | object (members : List Phrase)
  /-- A member of an object. -/
  | pair (key value : Phrase)

namespace Phrase

theorem induction {motive : Phrase → Prop} (quoted : ∀ text, motive (.quoted text))
    (number : ∀ value, motive (.number value)) (name : ∀ word, motive (.name word))
    (access : ∀ base property, motive base → motive (.access base property))
    (call : ∀ function given, motive function → (∀ item ∈ given, motive item) →
      motive (.call function given))
    (array : ∀ items, (∀ item ∈ items, motive item) → motive (.array items))
    (object : ∀ members, (∀ member ∈ members, motive member) → motive (.object members))
    (pair : ∀ key value, motive key → motive value → motive (.pair key value)) :
    ∀ phrase, motive phrase :=
  @Phrase.rec motive (fun list => ∀ item ∈ list, motive item) quoted number name access call array
    object pair (fun _ member => absurd member List.not_mem_nil)
    (fun _ _ first more => List.forall_mem_cons.mpr ⟨first, more⟩)

/-! ## Texts -/

mutual

/-- The text of a phrase. -/
def text : Phrase → List Char
  | .quoted text => '"' :: (text ++ ['"'])
  | .number value => Nat.toDigits 10 value
  | .name word => word
  | .access base property => text base ++ '.' :: property
  | .call function given => text function ++ '(' :: (listText given ++ [')'])
  | .array items => '[' :: (listText items ++ [']'])
  | .object members => '\x7b' :: (listText members ++ ['\x7d'])
  | .pair key value => text key ++ ':' :: ' ' :: text value

/-- The text of the items of a list. -/
def listText : List Phrase → List Char
  | [] => []
  | first :: more => text first ++ moreText more

/-- The text of the items of a list behind the first. -/
def moreText : List Phrase → List Char
  | [] => []
  | item :: more => ',' :: ' ' :: (text item ++ moreText more)

end

theorem exists_toDigits (value : Nat) :
    ∃ c more, Nat.toDigits 10 value = c :: more ∧ c.isDigit = true ∧
      more.all Char.isDigit = true := by
  have areDigits : ∀ c ∈ Nat.toDigits 10 value, c.isDigit = true := fun c member =>
    Nat.isDigit_of_mem_toDigits (by omega) (by omega) member
  cases digits : Nat.toDigits 10 value with
  | nil => exact absurd digits Nat.toDigits_ne_nil
  | cons c more =>
      rw [digits, List.forall_mem_cons] at areDigits
      exact ⟨c, more, rfl, areDigits.1, List.all_eq_true.mpr areDigits.2⟩

/-- The number of bytes of a phrase. -/
def bytes (phrase : Phrase) : Nat :=
  Text.byteLength phrase.text

/-! ## Trees -/

/-- The name of a member of an object, which is not an expression. -/
def asKey (node : Node) : Node :=
  if node.kind = .identifier then node.withKind .propertyIdentifier else node

mutual

/-- The tree of a phrase that starts at a byte. -/
def tree (start : Nat) : Phrase → Node
  | .quoted text => .mk .string none ⟨start, start + bytes (.quoted text)⟩ []
  | .number value => .mk .number none ⟨start, start + bytes (.number value)⟩ []
  | .name word => .mk .identifier none ⟨start, start + bytes (.name word)⟩ []
  | .access base property =>
      let stop := start + bytes (.access base property)
      let dot := start + bytes base
      .mk .memberExpression none ⟨start, stop⟩
        [tree start base, .mk .propertyIdentifier (some .property) ⟨dot + 1, stop⟩ []]
  | .call function given =>
      let stop := start + bytes (.call function given)
      let opening := start + bytes function
      .mk .callExpression none ⟨start, stop⟩
        [(tree start function).withRole .function,
          .mk .arguments (some .arguments) ⟨opening, stop⟩ (trees (opening + 1) given)]
  | .array items =>
      .mk .array none ⟨start, start + bytes (.array items)⟩ (trees (start + 1) items)
  | .object members =>
      .mk .object none ⟨start, start + bytes (.object members)⟩ (trees (start + 1) members)
  | .pair key value =>
      .mk .pair none ⟨start, start + bytes (.pair key value)⟩
        [asKey (tree start key), tree (start + bytes key + 2) value]

/-- The trees of the items of a list that starts at a byte. -/
def trees (start : Nat) : List Phrase → List Node
  | [] => []
  | first :: more => tree start first :: moreTrees (start + bytes first) more

/-- The trees of the items of a list behind the first. -/
def moreTrees (start : Nat) : List Phrase → List Node
  | [] => []
  | item :: more => tree (start + 2) item :: moreTrees (start + 2 + bytes item) more

end

theorem start_tree (phrase : Phrase) (start : Nat) : (phrase.tree start).start = start := by
  cases phrase with
  | _ => rfl

theorem stop_tree (phrase : Phrase) (start : Nat) :
    (phrase.tree start).stop = start + phrase.bytes := by
  cases phrase with
  | _ => rfl

theorem forall_moreTrees {holds : Node → Prop} {items : List Phrase}
    (each : ∀ item ∈ items, ∀ start, holds (item.tree start)) (start : Nat) :
    ∀ node ∈ moreTrees start items, holds node := by
  induction items generalizing start with
  | nil => exact fun _ member => absurd member List.not_mem_nil
  | cons item more inductionHypothesis =>
      rw [List.forall_mem_cons] at each
      exact List.forall_mem_cons.mpr ⟨each.1 _, inductionHypothesis each.2 _⟩

/-- What holds of the tree of each item at each byte holds of all trees of a list. -/
theorem forall_trees {holds : Node → Prop} {items : List Phrase}
    (each : ∀ item ∈ items, ∀ start, holds (item.tree start)) (start : Nat) :
    ∀ node ∈ trees start items, holds node := by
  cases items with
  | nil => exact fun _ member => absurd member List.not_mem_nil
  | cons first more =>
      rw [List.forall_mem_cons] at each
      exact List.forall_mem_cons.mpr ⟨each.1 _, forall_moreTrees each.2 _⟩

theorem anyPending_eq_false {nodes : List Node} (each : ∀ node ∈ nodes, node.isPending = false) :
    Node.anyPending nodes = false := by
  induction nodes with
  | nil => rfl
  | cons node more inductionHypothesis =>
      rw [List.forall_mem_cons] at each
      rw [Node.anyPending, each.1, inductionHypothesis each.2, Bool.or_self]

/-- A phrase is never a literal that is only legal as a pattern. -/
theorem isPending_tree (phrase : Phrase) : ∀ start, (phrase.tree start).isPending = false := by
  induction phrase using Phrase.induction with
  | array items inductionHypothesis =>
      intro start
      rw [tree, Node.isPending]
      exact anyPending_eq_false (forall_trees inductionHypothesis _)
  | object members inductionHypothesis =>
      intro start
      rw [tree, Node.isPending]
      exact anyPending_eq_false (forall_trees inductionHypothesis _)
  | pair key value key_ih value_ih =>
      intro start
      have plainKey : (asKey (tree start key)).isPending = false := by
        unfold asKey
        split
        · cases tree start key with
          | mk kind role range children => rfl
        · exact key_ih start
      rw [tree, Node.isPending, Node.anyPending, Node.anyPending, plainKey, value_ih]
      rfl
  | _ => exact fun _ => rfl

theorem hasFault_asKey (node : Node) : (asKey node).hasFault = true → node.hasFault = true := by
  unfold asKey
  split
  · cases node with
    | mk kind role range children =>
        intro faulty
        simp only [Node.withKind, Node.hasFault, Kind.isFault, Bool.false_or] at faulty
        simp [Node.hasFault, faulty]
  · exact id

theorem anyFault_eq_false {nodes : List Node} (each : ∀ node ∈ nodes, node.hasFault = false) :
    Node.anyFault nodes = false := by
  induction nodes with
  | nil => rfl
  | cons node more inductionHypothesis =>
      rw [List.forall_mem_cons] at each
      rw [Node.anyFault, each.1, inductionHypothesis each.2, Bool.or_self]

/-- The tree of a phrase marks no fault. -/
theorem hasFault_tree (phrase : Phrase) : ∀ start, (phrase.tree start).hasFault = false := by
  induction phrase using Phrase.induction with
  | quoted text => exact fun _ => rfl
  | number value => exact fun _ => rfl
  | name word => exact fun _ => rfl
  | access base property inductionHypothesis =>
      intro start
      rw [tree, Node.hasFault, Node.anyFault, inductionHypothesis]
      rfl
  | call function given function_ih given_ih =>
      intro start
      have sameFaults : ((tree start function).withRole .function).hasFault = false := by
        rw [← function_ih start]
        cases tree start function with
        | mk kind role range children => rfl
      rw [tree, Node.hasFault, Node.anyFault, sameFaults, Node.anyFault, Node.hasFault,
        anyFault_eq_false (forall_trees given_ih _)]
      rfl
  | array items inductionHypothesis =>
      intro start
      rw [tree, Node.hasFault, anyFault_eq_false (forall_trees inductionHypothesis _)]
      rfl
  | object members inductionHypothesis =>
      intro start
      rw [tree, Node.hasFault, anyFault_eq_false (forall_trees inductionHypothesis _)]
      rfl
  | pair key value key_ih value_ih =>
      intro start
      have plainKey : (asKey (tree start key)).hasFault = false := by
        rw [Bool.eq_false_iff]
        exact fun faulty => absurd (hasFault_asKey _ faulty) (by simp [key_ih start])
      rw [tree, Node.hasFault, Node.anyFault, plainKey, Node.anyFault, value_ih]
      rfl

mutual

/-- The number of lists that are nested in each other. -/
def depth : Phrase → Nat
  | .quoted _ | .number _ | .name _ => 0
  | .access base _ => depth base
  | .call function given => max (depth function) (depthAll given + 1)
  | .array items => depthAll items + 1
  | .object members => depthAll members + 1
  | .pair _ value => depth value

/-- The greatest depth of some phrases. -/
def depthAll : List Phrase → Nat
  | [] => 0
  | first :: more => max (depth first) (depthAll more)

end

theorem length_le_moreText {item : Phrase} {items : List Phrase} (member : item ∈ items) :
    item.text.length ≤ (moreText items).length := by
  induction items with
  | nil => cases member
  | cons first more inductionHypothesis =>
      simp only [moreText, List.length_cons, List.length_append]
      rcases List.mem_cons.mp member with rfl | later
      · omega
      · have := inductionHypothesis later
        omega

theorem length_le_listText {item : Phrase} {items : List Phrase} (member : item ∈ items) :
    item.text.length ≤ (listText items).length := by
  cases items with
  | nil => cases member
  | cons first more =>
      simp only [listText, List.length_append]
      rcases List.mem_cons.mp member with rfl | later
      · omega
      · have := length_le_moreText later
        omega

theorem depthAll_le_iff {items : List Phrase} {bound : Nat} :
    depthAll items ≤ bound ↔ ∀ item ∈ items, item.depth ≤ bound := by
  induction items with
  | nil => simp [depthAll]
  | cons item more inductionHypothesis =>
      rw [List.forall_mem_cons, ← inductionHypothesis, depthAll, Nat.max_le]

/-- Each list stands behind a character of its own. -/
theorem depth_le_length (phrase : Phrase) : phrase.depth ≤ phrase.text.length := by
  have nested : ∀ items : List Phrase, (∀ item ∈ items, item.depth ≤ item.text.length) →
      depthAll items ≤ (listText items).length := fun items each =>
    depthAll_le_iff.mpr fun item member => Nat.le_trans (each item member) (length_le_listText member)
  induction phrase using Phrase.induction with
  | quoted text => exact Nat.zero_le _
  | number value => exact Nat.zero_le _
  | name word => exact Nat.zero_le _
  | access base property inductionHypothesis =>
      simp only [depth, text, List.length_append]
      omega
  | call function given function_ih given_ih =>
      have := nested given given_ih
      simp only [depth, text, List.length_append, List.length_cons]
      omega
  | array items inductionHypothesis =>
      have := nested items inductionHypothesis
      simp only [depth, text, List.length_append, List.length_cons]
      omega
  | object members inductionHypothesis =>
      have := nested members inductionHypothesis
      simp only [depth, text, List.length_append, List.length_cons]
      omega
  | pair key value _ inductionHypothesis =>
      simp only [depth, text, List.length_append, List.length_cons]
      omega

/-! ## Conditions -/

/-- Words that cannot be names, that change the meaning of a name behind them, or whose calls are
rewritten. -/
def reserved : List String :=
  Grammar.statementKeywords ++
    ["async", "case", "catch", "default", "else", "enum", "export", "extends", "finally", "get", "in",
      "instanceof", "let", "set", "static", "slider", "toggle", "radio", "samples"]

/-- The word can be a name. -/
def isFree (word : List Char) : Bool :=
  isWord word && !reserved.contains (String.ofList word)

/-- The phrase is a member of an object. -/
def isPair : Phrase → Bool
  | .pair _ _ => true
  | _ => false

/-- The phrase can be called and have its members accessed as it stands. -/
def isBase : Phrase → Bool
  | .number _ | .pair _ _ => false
  | _ => true

theorem isPair_of_isBase {phrase : Phrase} (isBase : phrase.isBase = true) :
    phrase.isPair = false := by
  cases phrase with
  | pair key value => cases isBase
  | _ => rfl

/-- The phrase is the name of a member of an object. -/
def isKey : Phrase → Bool
  | .name _ | .quoted _ => true
  | _ => false

/-- The phrase is the call of a name with a literal. -/
def isLiteralCall : Phrase → Bool
  | .call (.name _) (.quoted _ :: _) => true
  | _ => false

theorem exists_of_isLiteralCall {phrase : Phrase} (isCall : phrase.isLiteralCall = true) :
    ∃ word text given, phrase = .call (.name word) (.quoted text :: given) := by
  unfold isLiteralCall at isCall
  split at isCall
  · exact ⟨_, _, _, rfl⟩
  · cases isCall

mutual

/-- The parts of the phrase stand where they may, apart from calls with a literal as the names of
members. -/
def isPhrase : Phrase → Bool
  | .quoted text => isPlainText text
  | .number _ => true
  | .name word => isFree word
  | .access base property => isPhrase base && base.isBase && isWord property
  | .call function given => isPhrase function && function.isBase && arePhrases false given
  | .array items => arePhrases false items
  | .object members => arePhrases true members
  | .pair key value =>
      isPhrase key && (key.isKey || key.isLiteralCall) && isPhrase value && !value.isPair

/-- The phrases are members of an object, or none of them is. -/
def arePhrases (pairs : Bool) : List Phrase → Bool
  | [] => true
  | first :: more => isPhrase first && (first.isPair == pairs) && arePhrases pairs more

end

mutual

/-- The names of all members of objects are names or literals. -/
def isSound : Phrase → Bool
  | .quoted _ | .number _ | .name _ => true
  | .access base _ => isSound base
  | .call function given => isSound function && areSound given
  | .array items => areSound items
  | .object members => areSound members
  | .pair key value => key.isKey && isSound value

/-- All phrases are sound. -/
def areSound : List Phrase → Bool
  | [] => true
  | first :: more => isSound first && areSound more

end

theorem arePhrases_iff {pairs : Bool} {items : List Phrase} :
    arePhrases pairs items = true ↔ ∀ item ∈ items, item.isPhrase = true ∧ item.isPair = pairs := by
  induction items with
  | nil => simp [arePhrases]
  | cons item more inductionHypothesis =>
      rw [List.forall_mem_cons, ← inductionHypothesis]
      simp [arePhrases]

theorem areSound_iff {items : List Phrase} :
    areSound items = true ↔ ∀ item ∈ items, item.isSound = true := by
  induction items with
  | nil => simp [areSound]
  | cons item more inductionHypothesis =>
      rw [List.forall_mem_cons, ← inductionHypothesis]
      simp [areSound]

/-- The phrase starts with a name or a literal, and so is a statement of its own. -/
def isStatement : Phrase → Bool
  | .quoted _ | .name _ => true
  | .access base _ => isStatement base
  | .call function _ => isStatement function
  | _ => false

/-- The statement that the phrase makes up, whose value is returned or not. -/
def line (returned : Bool) (phrase : Phrase) : List Char :=
  if returned then "return".toList ++ ' ' :: phrase.text else phrase.text

theorem line_false (phrase : Phrase) : phrase.line false = phrase.text := rfl

theorem line_true (phrase : Phrase) : phrase.line true = "return".toList ++ ' ' :: phrase.text := rfl

theorem isPair_of_isStatement {phrase : Phrase} (isStatement : phrase.isStatement = true) :
    phrase.isPair = false := by
  cases phrase with
  | pair key value => cases isStatement
  | _ => rfl

end Phrase

end PatternScript.Script
