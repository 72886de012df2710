import PatternScript.Proofs.Script.Placing
import PatternScript.Proofs.Script.Programs
import PatternScript.Proofs.Source.Offsets
import PatternScript.Proofs.Transpile.Returning

/-!
Contract: which transpiled programs are programs again.

Without any registration the literals in double quotes of a phrase become calls and nothing else
changes, so that a transpiled phrase is a phrase. A call may stand wherever an expression may, but not
in the place of the name of a member of an object. So the output is refused exactly if such a name is
a literal that is notation.

Owns: the phrase that a phrase becomes, and the output for a program of one phrase.
Does not own: reading phrases, and the replacements in other programs.
-/

namespace PatternScript

open Script Rewritten
open Text (StandsAt byteLength)

/-! ## What phrases become -/

namespace Script.Phrase

mutual

/-- What a phrase becomes that starts at a character: each literal is handed to the function for
notation with its offset, unless it holds a resource address. -/
def transpiled (offset : Nat) : Phrase → Phrase
  | .quoted text =>
      if holdsScheme text then .quoted text
      else .call (.name Language.patternCall.toList) [.quoted text, .number offset]
  | .number value => .number value
  | .name word => .name word
  | .access base property => .access (transpiled offset base) property
  | .call function given =>
      .call (transpiled offset function) (transpiledAll (offset + function.text.length + 1) given)
  | .array items => .array (transpiledAll (offset + 1) items)
  | .object members => .object (transpiledAll (offset + 1) members)
  | .pair key value =>
      .pair (transpiled offset key) (transpiled (offset + key.text.length + 2) value)

/-- What the items of a list become. -/
def transpiledAll (offset : Nat) : List Phrase → List Phrase
  | [] => []
  | first :: more => transpiled offset first :: transpiledMore (offset + first.text.length) more

/-- What the items of a list behind the first become. -/
def transpiledMore (offset : Nat) : List Phrase → List Phrase
  | [] => []
  | item :: more =>
      transpiled (offset + 2) item :: transpiledMore (offset + 2 + item.text.length) more

end

/-- The name of a member of an object, if it is a literal, holds a resource address. -/
def keyStays : Phrase → Bool
  | .quoted text => holdsScheme text
  | _ => true

mutual

/-- No name of a member of an object becomes a call. -/
def keysStay : Phrase → Bool
  | .quoted _ | .number _ | .name _ => true
  | .access base _ => keysStay base
  | .call function given => keysStay function && allKeysStay given
  | .array items => allKeysStay items
  | .object members => allKeysStay members
  | .pair key value => key.keyStays && keysStay value

/-- No name of a member of an object in some phrases becomes a call. -/
def allKeysStay : List Phrase → Bool
  | [] => true
  | first :: more => keysStay first && allKeysStay more

end

theorem allKeysStay_eq_all (items : List Phrase) :
    allKeysStay items = (items.map keysStay).all id := by
  induction items with
  | nil => rfl
  | cons item more inductionHypothesis => simp [allKeysStay, inductionHypothesis]

theorem areSound_eq_all (items : List Phrase) : areSound items = (items.map isSound).all id := by
  induction items with
  | nil => rfl
  | cons item more inductionHypothesis => simp [areSound, inductionHypothesis]

theorem arePhrases_eq_all (pairs : Bool) (items : List Phrase) :
    arePhrases pairs items =
      (items.map fun item => item.isPhrase && (item.isPair == pairs)).all id := by
  induction items with
  | nil => rfl
  | cons item more inductionHypothesis => simp [arePhrases, inductionHypothesis]

theorem map_transpiledMore {before after : Phrase → Bool} {items : List Phrase}
    (each : ∀ item ∈ items, ∀ offset, after (item.transpiled offset) = before item) (offset : Nat) :
    (transpiledMore offset items).map after = items.map before := by
  induction items generalizing offset with
  | nil => rfl
  | cons item more inductionHypothesis =>
      rw [List.forall_mem_cons] at each
      rw [transpiledMore, List.map_cons, List.map_cons, each.1, inductionHypothesis each.2]

theorem map_transpiledAll {before after : Phrase → Bool} {items : List Phrase}
    (each : ∀ item ∈ items, ∀ offset, after (item.transpiled offset) = before item) (offset : Nat) :
    (transpiledAll offset items).map after = items.map before := by
  cases items with
  | nil => rfl
  | cons first more =>
      rw [List.forall_mem_cons] at each
      rw [transpiledAll, List.map_cons, List.map_cons, each.1, map_transpiledMore each.2]

theorem isPair_transpiled (phrase : Phrase) (offset : Nat) :
    (phrase.transpiled offset).isPair = phrase.isPair := by
  cases phrase with
  | quoted text =>
      rw [transpiled]
      split <;> rfl
  | _ => rfl

theorem isBase_transpiled (phrase : Phrase) (offset : Nat) :
    (phrase.transpiled offset).isBase = phrase.isBase := by
  cases phrase with
  | quoted text =>
      rw [transpiled]
      split <;> rfl
  | _ => rfl

theorem isStatement_transpiled (phrase : Phrase) (offset : Nat) :
    (phrase.transpiled offset).isStatement = phrase.isStatement := by
  induction phrase using Phrase.induction with
  | quoted text =>
      rw [transpiled]
      split <;> rfl
  | access base property inductionHypothesis => exact inductionHypothesis
  | call function given function_ih _ => exact function_ih
  | _ => rfl

/-- A sound phrase stays one, apart from calls in the place of names of members. -/
theorem isPhrase_transpiled (phrase : Phrase) : phrase.isPhrase = true → phrase.isSound = true →
    ∀ offset, (phrase.transpiled offset).isPhrase = true := by
  have listed : ∀ {pairs items}, arePhrases pairs items = true → areSound items = true →
      (∀ item ∈ items, item.isPhrase = true → item.isSound = true →
        ∀ offset, (item.transpiled offset).isPhrase = true) →
      ∀ offset, arePhrases pairs (transpiledAll offset items) = true := by
    intro pairs items phrases sound each offset
    have kept : ∀ item ∈ items, ∀ offset, ((item.transpiled offset).isPhrase &&
        ((item.transpiled offset).isPair == pairs)) = true := by
      intro item member offset
      obtain ⟨isPhrase, isPair⟩ := arePhrases_iff.mp phrases item member
      have isSound := areSound_iff.mp sound item member
      simp [each item member isPhrase isSound offset, isPair_transpiled, isPair]
    rw [arePhrases_eq_all, map_transpiledAll kept]
    simp
  induction phrase using Phrase.induction with
  | quoted text =>
      intro isPlain _ offset
      rw [transpiled]
      split
      · exact isPlain
      · have isFree : isFree Language.patternCall.toList = true := by decide
        simp only [isPhrase] at isPlain
        simp [isPhrase, arePhrases, isBase, isPair, isFree, isPlain]
  | number value => exact fun _ _ _ => rfl
  | name word => exact fun isFree _ _ => isFree
  | access base property inductionHypothesis =>
      intro phrases isSound offset
      simp only [isPhrase, Bool.and_eq_true] at phrases
      simp [transpiled, isPhrase, isBase_transpiled, phrases, inductionHypothesis phrases.1.1 isSound]
  | call function given function_ih given_ih =>
      intro phrases sound offset
      simp only [isPhrase, isSound, Bool.and_eq_true] at phrases sound
      simp [transpiled, isPhrase, isBase_transpiled, phrases, function_ih phrases.1.1 sound.1,
        listed phrases.2 sound.2 given_ih]
  | array items inductionHypothesis =>
      exact fun phrases sound offset => listed phrases sound inductionHypothesis _
  | object members inductionHypothesis =>
      exact fun phrases sound offset => listed phrases sound inductionHypothesis _
  | pair key value key_ih value_ih =>
      intro phrases sound offset
      simp only [isPhrase, isSound, Bool.and_eq_true] at phrases sound
      have keySound : key.isSound = true := by
        cases key with
        | quoted | name => rfl
        | _ => cases sound.1
      have named : ((key.transpiled offset).isKey || (key.transpiled offset).isLiteralCall) = true := by
        cases key with
        | quoted text =>
            rw [transpiled]
            split <;> rfl
        | name => rfl
        | _ => cases sound.1
      have notPair := isPair_transpiled value (offset + key.text.length + 2)
      simp [transpiled, isPhrase, key_ih phrases.1.1.1 keySound, named, notPair, phrases,
        value_ih phrases.1.2 sound.2]

/-- What a sound phrase becomes is sound as long as no name of a member becomes a call. -/
theorem isSound_transpiled (phrase : Phrase) : phrase.isSound = true →
    ∀ offset, (phrase.transpiled offset).isSound = phrase.keysStay := by
  have listed : ∀ {items}, areSound items = true →
      (∀ item ∈ items, item.isSound = true →
        ∀ offset, (item.transpiled offset).isSound = item.keysStay) →
      ∀ offset, areSound (transpiledAll offset items) = allKeysStay items := by
    intro items sound each offset
    rw [areSound_eq_all, allKeysStay_eq_all,
      map_transpiledAll fun item member => each item member (areSound_iff.mp sound item member)]
  induction phrase using Phrase.induction with
  | quoted text =>
      intro _ offset
      rw [transpiled]
      split <;> rfl
  | number value => exact fun _ _ => rfl
  | name word => exact fun _ _ => rfl
  | access base property inductionHypothesis => exact inductionHypothesis
  | call function given function_ih given_ih =>
      intro sound offset
      simp only [isSound, Bool.and_eq_true] at sound
      rw [transpiled, isSound, keysStay, function_ih sound.1, listed sound.2 given_ih]
  | array items inductionHypothesis => exact fun sound offset => listed sound inductionHypothesis _
  | object members inductionHypothesis => exact fun sound offset => listed sound inductionHypothesis _
  | pair key value key_ih value_ih =>
      intro sound offset
      simp only [isSound, Bool.and_eq_true] at sound
      have named : (key.transpiled offset).isKey = key.keyStays := by
        cases key with
        | quoted text =>
            rw [transpiled, keyStays]
            split
            case isTrue holds => rw [holds]; rfl
            case isFalse without => rw [Bool.eq_false_iff.mpr without]; rfl
        | name => rfl
        | _ => cases sound.1
      rw [transpiled, isSound, keysStay, named, value_ih sound.2]

end Script.Phrase

/-! ## Rewriting phrases -/

namespace Pass

/-- Wherever the node stands, this text takes its place, and nothing is counted. -/
def Becomes (context : PassContext) (node : Node) (text : List Char) : Prop :=
  ∀ ancestors counters, (rewrite context ancestors node counters).1.text = text ∧
    (rewrite context ancestors node counters).2 = counters

/-- Wherever the nodes stand, this text takes the place of a part of the program with them in it. -/
def BecomeAll (context : PassContext) (start stop : Nat) (nodes : List Node) (text : List Char) :
    Prop :=
  ∀ ancestors counters,
    weave context.source start stop (rewriteAll context ancestors nodes counters).1 = text ∧
      (rewriteAll context ancestors nodes counters).2 = counters

section Becoming

variable {context : PassContext} {start stop : Nat} {node : Node} {rest : List Node}
  {text more : List Char}

theorem becomeAll_nil (sliced : context.source.slice ⟨start, stop⟩ = text) :
    BecomeAll context start stop [] text :=
  fun _ _ => ⟨sliced, rfl⟩

theorem BecomeAll.of_eq {other : List Char} (become : BecomeAll context start stop rest text)
    (same : text = other) : BecomeAll context start stop rest other :=
  same ▸ become

theorem BecomeAll.cons (first : Becomes context node text)
    (later : BecomeAll context node.stop stop rest more) :
    BecomeAll context start stop (node :: rest)
      (context.source.slice ⟨start, node.start⟩ ++ (text ++ more)) := by
  intro ancestors counters
  obtain ⟨written, counted⟩ := first ancestors counters
  obtain ⟨moreWritten, moreCounted⟩ := later ancestors counters
  rw [rewriteAll_cons, counted]
  exact ⟨by rw [weave, node_rewrite, written, moreWritten, List.append_assoc], moreCounted⟩

/-- A node without a rule becomes what becomes of its children in it. -/
theorem becomes_of_no_rule (noRule : ∀ parent,
      Rule.select? context.registry (Shape.of context.source parent node) = none)
    (below : BecomeAll context node.start node.stop node.children text) :
    Becomes context node text := by
  intro ancestors counters
  obtain ⟨written, counted⟩ := below (node :: ancestors) counters
  rw [rewrite_of_no_rule (noRule _)]
  exact ⟨written, counted⟩

end Becoming

/-- Nothing is registered. -/
def bareContext (chars : List Char) (options : Options) : PassContext :=
  ⟨.ofChars chars, .empty, options⟩

section Lists

variable {chars : List Char} {options : Options} {start stop : Nat} {items : List Phrase}

theorem charOffset_behind {part : List Char} (stands : StandsAt chars start part) :
    (SourceText.ofChars chars).charOffset (start + byteLength part) =
      (SourceText.ofChars chars).charOffset start + part.length := by
  rw [SourceText.charOffset_stop stands.first stands.last (Nat.le_add_right ..), stands.slice_eq]

/-- Wherever the phrase stands, its tree becomes what the phrase becomes, whatever part it plays. -/
def Rephrased (chars : List Char) (options : Options) (phrase : Phrase) : Prop :=
  ∀ start role, StandsAt chars start phrase.text → Becomes (bareContext chars options)
    (.mk (phrase.tree start).kind role (phrase.tree start).range (phrase.tree start).children)
    (phrase.transpiled ((SourceText.ofChars chars).charOffset start)).text

theorem Rephrased.becomes {phrase : Phrase} (rephrased : Rephrased chars options phrase)
    (stands : StandsAt chars start phrase.text) :
    Becomes (bareContext chars options) (phrase.tree start)
      (phrase.transpiled ((SourceText.ofChars chars).charOffset start)).text := by
  have here := rephrased start none stands
  cases phrase with
  | _ => exact here

theorem Rephrased.becomes_withRole {phrase : Phrase} (rephrased : Rephrased chars options phrase)
    (stands : StandsAt chars start phrase.text) (role : Role) :
    Becomes (bareContext chars options) ((phrase.tree start).withRole role)
      (phrase.transpiled ((SourceText.ofChars chars).charOffset start)).text := by
  have here := rephrased start (some role) stands
  cases phrase with
  | _ => exact here

theorem becomeAll_moreTrees (each : ∀ item ∈ items, Rephrased chars options item)
    (stands : StandsAt chars start (Phrase.moreText items)) :
    BecomeAll (bareContext chars options) start stop (Phrase.moreTrees start items)
      (Phrase.moreText (Phrase.transpiledMore ((SourceText.ofChars chars).charOffset start) items) ++
        Text.slice chars ⟨start + byteLength (Phrase.moreText items), stop⟩) := by
  induction items generalizing start with
  | nil => exact becomeAll_nil rfl
  | cons item more inductionHypothesis =>
      rw [List.forall_mem_cons] at each
      have comma : StandsAt chars start [',', ' '] := @StandsAt.left chars [',', ' '] _ start stands
      have behind : StandsAt chars (start + 2) (item.text ++ Phrase.moreText more) :=
        (stands.tail rfl).tail rfl
      have atItem : (SourceText.ofChars chars).charOffset (start + 2) =
          (SourceText.ofChars chars).charOffset start + 2 := charOffset_behind comma
      have atRest : (SourceText.ofChars chars).charOffset (start + 2 + item.bytes) =
          (SourceText.ofChars chars).charOffset start + 2 + item.text.length := by
        rw [← atItem]
        exact charOffset_behind behind.left
      have later := inductionHypothesis each.2 behind.right
      rw [← Phrase.bytes, atRest] at later
      refine (BecomeAll.cons (each.1.becomes behind.left)
        (by rw [Phrase.stop_tree]; exact later)).of_eq ?_
      have separator : (bareContext chars options).source.slice ⟨start, start + 2⟩ = [',', ' '] :=
        comma.slice_eq
      have last : start + 2 + item.bytes + byteLength (Phrase.moreText more) =
          start + byteLength (Phrase.moreText (item :: more)) := by
        rw [Phrase.byteLength_moreText_cons]
        omega
      rw [Phrase.start_tree, separator, atItem, last]
      simp only [Phrase.transpiledMore, Phrase.moreText, List.cons_append, List.nil_append,
        List.append_assoc]

/-- The items of a list become the right phrases between its delimiters. -/
theorem becomeAll_trees {o c : Char} (opening : o.utf8Size = 1) (closing : c.utf8Size = 1)
    (each : ∀ item ∈ items, Rephrased chars options item)
    (stands : StandsAt chars start (o :: (Phrase.listText items ++ [c]))) :
    BecomeAll (bareContext chars options) start
      (start + byteLength (o :: (Phrase.listText items ++ [c]))) (Phrase.trees (start + 1) items)
      (o :: (Phrase.listText
        (Phrase.transpiledAll ((SourceText.ofChars chars).charOffset start + 1) items) ++ [c])) := by
  cases items with
  | nil => exact becomeAll_nil stands.slice_eq
  | cons first more =>
      rw [List.forall_mem_cons] at each
      have mark : StandsAt chars start [o] := @StandsAt.left chars [o] _ start stands
      have size : byteLength [o] = 1 := by simp [opening]
      have inner := stands.tail opening
      rw [Phrase.listText, List.append_assoc] at inner
      have atFirst : (SourceText.ofChars chars).charOffset (start + 1) =
          (SourceText.ofChars chars).charOffset start + 1 := by
        have counted := charOffset_behind mark
        rwa [size] at counted
      have atRest : (SourceText.ofChars chars).charOffset (start + 1 + first.bytes) =
          (SourceText.ofChars chars).charOffset start + 1 + first.text.length := by
        rw [← atFirst]
        exact charOffset_behind inner.left
      have later := @becomeAll_moreTrees chars options _
        (start + byteLength (o :: (Phrase.listText (first :: more) ++ [c]))) more each.2
        inner.right.left
      have finish : StandsAt chars (start + 1 + first.bytes + byteLength (Phrase.moreText more)) [c] :=
        inner.right.right
      have stop : start + byteLength (o :: (Phrase.listText (first :: more) ++ [c])) =
          start + 1 + first.bytes + byteLength (Phrase.moreText more) + byteLength [c] := by
        simp only [Phrase.listText, Phrase.bytes, Text.byteLength_cons, Text.byteLength_append,
          Text.byteLength_nil, opening, closing]
        omega
      rw [← Phrase.bytes, atRest, stop, finish.slice_eq] at later
      rw [stop]
      refine (BecomeAll.cons (each.1.becomes inner.left)
        (by rw [Phrase.stop_tree]; exact later)).of_eq ?_
      have opened : (bareContext chars options).source.slice ⟨start, start + 1⟩ = [o] := by
        rw [← size]
        exact mark.slice_eq
      rw [Phrase.start_tree, opened, atFirst]
      simp only [Phrase.transpiledAll, Phrase.listText, List.cons_append, List.nil_append,
        List.append_assoc]

end Lists

/-! ### One construct at a time -/

section Constructs

variable {chars : List Char} {options : Options} {start : Nat} {role : Option Role}

/-- A literal is handed to the function for notation, unless it holds a resource address. -/
theorem becomes_quoted {word : List Char} (stands : StandsAt chars start (Phrase.text (.quoted word))) :
    Becomes (bareContext chars options)
      (.mk .string role ⟨start, start + Phrase.bytes (.quoted word)⟩ [])
      (Phrase.transpiled ((SourceText.ofChars chars).charOffset start) (.quoted word)).text := by
  have sliced : (bareContext chars options).source.slice
      ⟨start, start + Phrase.bytes (.quoted word)⟩ = '"' :: (word ++ ['"']) := stands.slice_eq
  have inside : insideDelimiters ('"' :: (word ++ ['"'])) = word := by
    have size := @Phrase.byteLength_delimited '"' '"' rfl rfl word
    exact @Text.slice_eq_of_append ['"'] word ['"'] 1 _ rfl (by omega)
  have selected : ∀ parent, Rule.select? (bareContext chars options).registry
      (Shape.of (bareContext chars options).source parent
        (.mk .string role ⟨start, start + Phrase.bytes (.quoted word)⟩ [])) = some .stringPattern := by
    intro parent
    simp only [Shape.of, Node.kind, Node.range, sliced]
    rfl
  intro ancestors counters
  have manner : Manner.of (bareContext chars options) ancestors
      (.mk .string role ⟨start, start + Phrase.bytes (.quoted word)⟩ []) counters =
        (.ofLiteral (bareContext chars options)
          (.mk .string role ⟨start, start + Phrase.bytes (.quoted word)⟩ []) word
          ('"' :: (word ++ ['"'])), counters) := by
    simp only [Manner.of, selected, Node.range, sliced, inside]
  cases holds : holdsScheme word with
  | true =>
      simp only [Manner.ofLiteral, holds, if_true] at manner
      rw [rewrite_of_build manner]
      simp only [Phrase.transpiled, holds, if_true]
      exact ⟨sliced, rfl⟩
  | false =>
      simp only [Manner.ofLiteral, holds, Bool.false_eq_true, if_false] at manner
      rw [rewrite_of_fold manner]
      simp only [Phrase.transpiled, holds, Bool.false_eq_true, if_false]
      refine ⟨?_, trivial⟩
      simp [Rewriting.literalCall, Rewritten.text, Phrase.text, Phrase.listText, Phrase.moreText,
        Registry.defaultLanguage?, Registry.language?, bareContext, Registry.empty, Node.start,
        Node.range]

/-- The kinds of nodes that have rules. -/
def ruledKinds : List Kind :=
  [.callExpression, .templateString, .string, .labeledStatement]

theorem select?_eq_none_of_unruled {kind : Kind} {range : ByteRange} {children : List Node}
    (unruled : ruledKinds.contains kind = false) (parent : Option Node) :
    Rule.select? (bareContext chars options).registry
      (Shape.of (bareContext chars options).source parent (.mk kind role range children)) = none := by
  have other : ∀ ruled ∈ ruledKinds, kind ≠ ruled := by
    rintro ruled member rfl
    rw [List.contains_iff_mem.mpr member] at unruled
    cases unruled
  exact Rule.select?_eq_none_of_kind (other _ (by simp [ruledKinds])) (other _ (by simp [ruledKinds]))
    (other _ (by simp [ruledKinds])) (other _ (by simp [ruledKinds]))

theorem becomes_leaf {kind : Kind} {text : List Char} (unruled : ruledKinds.contains kind = false)
    (stands : StandsAt chars start text) :
    Becomes (bareContext chars options) (.mk kind role ⟨start, start + byteLength text⟩ []) text :=
  becomes_of_no_rule (select?_eq_none_of_unruled unruled) (becomeAll_nil stands.slice_eq)

theorem becomes_list {kind : Kind} {items : List Phrase} {o c : Char}
    (unruled : ruledKinds.contains kind = false) (opening : o.utf8Size = 1) (closing : c.utf8Size = 1)
    (each : ∀ item ∈ items, Rephrased chars options item)
    (stands : StandsAt chars start (o :: (Phrase.listText items ++ [c]))) :
    Becomes (bareContext chars options)
      (.mk kind role ⟨start, start + byteLength (o :: (Phrase.listText items ++ [c]))⟩
        (Phrase.trees (start + 1) items))
      (o :: (Phrase.listText
        (Phrase.transpiledAll ((SourceText.ofChars chars).charOffset start + 1) items) ++ [c])) :=
  becomes_of_no_rule (select?_eq_none_of_unruled unruled) (becomeAll_trees opening closing each stands)

/-- The functions that have rules are not free names. -/
theorem of_isFree {word : List Char} (isFree : Phrase.isFree word = true) :
    NativeWidget.ofCallee? (String.ofList word) = none ∧ String.ofList word ≠ Rule.sampleLoader := by
  have unlisted := Grammar.not_mem_of_free isFree
    (show ∀ other ∈ ["slider", "toggle", "radio", "samples"], other ∈ Phrase.reserved by decide +kernel)
  generalize String.ofList word = spelled at unlisted ⊢
  simp only [List.mem_cons, List.not_mem_nil, or_false, not_or] at unlisted
  obtain ⟨notSlider, notToggle, notRadio, notLoader⟩ := unlisted
  exact ⟨by simp [NativeWidget.ofCallee?, *], notLoader⟩

/-- Calls are kept: no method is registered, and the functions that have rules are not free names. -/
theorem select?_call_eq_none {function : Phrase} {given : List Phrase}
    (isPhrase : function.isPhrase = true)
    (stands : StandsAt chars start function.text) (parent : Option Node) :
    Rule.select? (bareContext chars options).registry (Shape.of (bareContext chars options).source parent
      (.mk .callExpression role ⟨start, start + Phrase.bytes (.call function given)⟩
        (Phrase.tree start (.call function given)).children)) = none := by
  have functionNode : ∀ {found}, (Node.mk .callExpression role
      ⟨start, start + Phrase.bytes (.call function given)⟩
      (Phrase.tree start (.call function given)).children).child? .function = some found →
      found = (function.tree start).withRole .function := by
    intro found functionPart
    simpa [Node.child?, Node.children, Phrase.tree] using functionPart.symm
  have argumentsNode : ∀ {found}, (Node.mk .callExpression role
      ⟨start, start + Phrase.bytes (.call function given)⟩
      (Phrase.tree start (.call function given)).children).child? .arguments = some found →
      found.kind = .arguments := by
    intro found argumentsPart
    simp only [Node.child?, Node.children, Phrase.tree] at argumentsPart
    rw [List.find?_cons_of_neg (by simp), List.find?_cons_of_pos rfl,
      Option.some.injEq] at argumentsPart
    rw [← argumentsPart, Node.kind]
  -- The function of a call is only looked at if it is a name, which is free then.
  have named : ∀ {found : Node}, found = (function.tree start).withRole .function →
      found.kind = .identifier →
      NativeWidget.ofCallee? ((bareContext chars options).source.text found.range) = none ∧
        (bareContext chars options).source.text found.range ≠ Rule.sampleLoader := by
    rintro found rfl isName
    cases function with
    | name word =>
        have spelled : (bareContext chars options).source.text
            ((Phrase.tree start (.name word)).withRole .function).range = String.ofList word :=
          congrArg String.ofList stands.slice_eq
        rw [spelled]
        exact of_isFree isPhrase
    | _ => cases isName
  cases selected : Rule.select? (bareContext chars options).registry
      (Shape.of (bareContext chars options).source parent
        (.mk .callExpression role ⟨start, start + Phrase.bytes (.call function given)⟩
          (Phrase.tree start (.call function given)).children)) with
  | none => rfl
  | some rule =>
      cases Rule.matches_of_select? selected with
      | subLanguage kind functionPart templatePart isName isTemplate known =>
          rw [argumentsNode templatePart] at isTemplate
          cases isTemplate
      | tidal kind functionPart templatePart isName isTemplate unknown tag =>
          rw [argumentsNode templatePart] at isTemplate
          cases isTemplate
      | templatePattern kind untagged => cases kind
      | stringPattern kind quoted => cases kind
      | nativeWidget kind functionPart argumentsPart isName isList control given =>
          rw [(named (functionNode functionPart) isName).1] at control
          cases control
      | widgetMethod kind functionPart argumentsPart isMember propertyPart isList known => cases known
      | awaitSamples kind functionPart argumentsPart isName isList loader bare =>
          exact absurd loader (named (functionNode functionPart) isName).2
      | label kind labelPart bodyPart isExpression firstValue => cases kind

theorem becomes_call {function : Phrase} {given : List Phrase}
    (isPhrase : function.isPhrase = true)
    (stands : StandsAt chars start (Phrase.text (.call function given)))
    (called : Rephrased chars options function)
    (each : ∀ item ∈ given, Rephrased chars options item) :
    Becomes (bareContext chars options)
      (.mk .callExpression role ⟨start, start + Phrase.bytes (.call function given)⟩
        (Phrase.tree start (.call function given)).children)
      (Phrase.transpiled ((SourceText.ofChars chars).charOffset start) (.call function given)).text := by
  rw [Phrase.text] at stands
  refine becomes_of_no_rule (select?_call_eq_none isPhrase stands.left) ?_
  have opened : StandsAt chars (start + function.bytes) ('(' :: (Phrase.listText given ++ [')'])) :=
    stands.right
  have stop : start + Phrase.bytes (.call function given) =
      start + function.bytes + byteLength ('(' :: (Phrase.listText given ++ [')'])) := by
    rw [Phrase.bytes, Phrase.text, Text.byteLength_append, ← Phrase.bytes]
    omega
  have atList : (SourceText.ofChars chars).charOffset (start + function.bytes) =
      (SourceText.ofChars chars).charOffset start + function.text.length := charOffset_behind stands.left
  have list := @becomes_list chars options _ (some .arguments) .arguments given '(' ')'
    rfl rfl rfl each opened
  rw [← stop, atList] at list
  refine (BecomeAll.cons (called.becomes_withRole stands.left .function)
    (.cons list (becomeAll_nil rfl))).of_eq ?_
  have before : ((function.tree start).withRole .function).start = start := by
    rw [Node.start_withRole, Phrase.start_tree]
  have between : ((function.tree start).withRole .function).stop = start + function.bytes := by
    rw [Node.stop_withRole, Phrase.stop_tree]
  rw [before, between]
  simp only [Node.start, Node.stop, Node.range, SourceText.slice, Text.slice_self, List.nil_append,
    List.append_nil, Phrase.transpiled, Phrase.text]

theorem becomes_asKey {key : Phrase} (isKey : key.isKey = true)
    (stands : StandsAt chars start key.text) :
    Becomes (bareContext chars options) (Phrase.asKey (key.tree start))
      (key.transpiled ((SourceText.ofChars chars).charOffset start)).text := by
  cases key with
  | quoted word => exact becomes_quoted stands
  | name word => exact becomes_leaf rfl stands
  | _ => cases isKey

theorem becomes_pair {key value : Phrase} (isKey : key.isKey = true)
    (stands : StandsAt chars start (Phrase.text (.pair key value)))
    (rephrased : Rephrased chars options value) :
    Becomes (bareContext chars options)
      (.mk .pair role ⟨start, start + Phrase.bytes (.pair key value)⟩
        (Phrase.tree start (.pair key value)).children)
      (Phrase.transpiled ((SourceText.ofChars chars).charOffset start) (.pair key value)).text := by
  rw [Phrase.text] at stands
  have colon : StandsAt chars (start + key.bytes) [':', ' '] :=
    @StandsAt.left chars [':', ' '] value.text _ stands.right
  have behind : StandsAt chars (start + key.bytes + 2) value.text := (stands.right.tail rfl).tail rfl
  have atValue : (SourceText.ofChars chars).charOffset (start + key.bytes + 2) =
      (SourceText.ofChars chars).charOffset start + key.text.length + 2 := by
    have atColon := charOffset_behind stands.left
    rw [← atColon]
    exact charOffset_behind colon
  have stop : start + Phrase.bytes (.pair key value) = start + key.bytes + 2 + value.bytes := by
    simp only [Phrase.bytes, Phrase.text, Text.byteLength_cons, Text.byteLength_append,
      show ':'.utf8Size = 1 from rfl, show ' '.utf8Size = 1 from rfl]
    omega
  have separator : (bareContext chars options).source.slice
      ⟨start + key.bytes, start + key.bytes + 2⟩ = [':', ' '] := colon.slice_eq
  obtain ⟨_, first, last⟩ := Phrase.wellFormed_asKey isKey stands.left
  refine becomes_of_no_rule (select?_eq_none_of_unruled rfl)
    ((BecomeAll.cons (becomes_asKey isKey stands.left)
      (.cons (rephrased.becomes behind) (becomeAll_nil rfl))).of_eq ?_)
  rw [first, last, Phrase.start_tree, Phrase.stop_tree, separator, atValue]
  simp only [Node.start, Node.stop, Node.range, stop, SourceText.slice, Text.slice_self,
    List.nil_append, List.append_nil, List.cons_append, Phrase.transpiled, Phrase.text]

theorem becomes_access {base : Phrase} {property : List Char}
    (stands : StandsAt chars start (Phrase.text (.access base property)))
    (rephrased : Rephrased chars options base) :
    Becomes (bareContext chars options)
      (.mk .memberExpression role ⟨start, start + Phrase.bytes (.access base property)⟩
        (Phrase.tree start (.access base property)).children)
      (Phrase.transpiled ((SourceText.ofChars chars).charOffset start) (.access base property)).text := by
  rw [Phrase.text] at stands
  have dot : StandsAt chars (start + base.bytes) ['.'] :=
    @StandsAt.left chars ['.'] property _ stands.right
  have stop : start + Phrase.bytes (.access base property) =
      start + base.bytes + 1 + byteLength property := by
    simp only [Phrase.bytes, Phrase.text, Text.byteLength_cons, Text.byteLength_append,
      show '.'.utf8Size = 1 from rfl]
    omega
  have separator : (bareContext chars options).source.slice
      ⟨start + base.bytes, start + base.bytes + 1⟩ = ['.'] := dot.slice_eq
  have named := @becomes_leaf chars options _ (some .property) .propertyIdentifier property rfl
    (stands.right.tail rfl)
  rw [← Phrase.bytes, ← stop] at named
  refine becomes_of_no_rule (select?_eq_none_of_unruled rfl)
    ((BecomeAll.cons (rephrased.becomes stands.left) (.cons named (becomeAll_nil rfl))).of_eq ?_)
  rw [Phrase.start_tree, Phrase.stop_tree]
  simp only [Node.start, Node.stop, Node.range]
  rw [separator]
  simp only [SourceText.slice, Text.slice_self, List.nil_append, List.append_nil, List.cons_append,
    Phrase.transpiled, Phrase.text]

theorem rephrased (phrase : Phrase) : phrase.isPhrase = true → phrase.isSound = true →
    Rephrased chars options phrase := by
  have listed : ∀ {pairs items}, Phrase.arePhrases pairs items = true → Phrase.areSound items = true →
      (∀ item ∈ items, item.isPhrase = true → item.isSound = true → Rephrased chars options item) →
      ∀ item ∈ items, Rephrased chars options item :=
    fun arePhrases areSound each item member => each item member
      (Phrase.arePhrases_iff.mp arePhrases item member).1 (Phrase.areSound_iff.mp areSound item member)
  induction phrase using Phrase.induction with
  | quoted word => exact fun _ _ start role stands => becomes_quoted stands
  | number value => exact fun _ _ start role stands => becomes_leaf rfl stands
  | name word => exact fun _ _ start role stands => becomes_leaf rfl stands
  | access base property inductionHypothesis =>
      intro isPhrase isSound start role stands
      simp only [Phrase.isPhrase, Bool.and_eq_true] at isPhrase
      exact becomes_access stands (inductionHypothesis isPhrase.1.1 isSound)
  | call function given function_ih given_ih =>
      intro isPhrase isSound start role stands
      simp only [Phrase.isPhrase, Phrase.isSound, Bool.and_eq_true] at isPhrase isSound
      exact becomes_call isPhrase.1.1 stands (function_ih isPhrase.1.1 isSound.1)
        (listed isPhrase.2 isSound.2 given_ih)
  | array items inductionHypothesis =>
      intro arePhrases areSound start role stands
      exact becomes_list rfl rfl rfl (listed arePhrases areSound inductionHypothesis) stands
  | object members inductionHypothesis =>
      intro arePhrases areSound start role stands
      exact becomes_list rfl rfl rfl (listed arePhrases areSound inductionHypothesis) stands
  | pair key value key_ih value_ih =>
      intro isPhrase isSound start role stands
      simp only [Phrase.isPhrase, Phrase.isSound, Bool.and_eq_true] at isPhrase isSound
      exact becomes_pair isSound.1 stands (value_ih isPhrase.1.2 isSound.2)

end Constructs

/-! ## Programs of one phrase -/

section Programs

variable {phrase : Phrase}

/-- The statement that a phrase makes up on its own. -/
def phraseStatement (phrase : Phrase) : Node :=
  .mk .expressionStatement none ⟨0, phrase.bytes⟩ [phrase.tree 0]

/-- The program of that statement. -/
def phraseProgram (phrase : Phrase) : Node :=
  .mk .program none ⟨0, phrase.bytes⟩ [phraseStatement phrase]

theorem wellFormed_phraseProgram (isPhrase : phrase.isPhrase = true) (isSound : phrase.isSound = true) :
    (phraseProgram phrase).WellFormed phrase.text := by
  have stands := StandsAt.whole phrase.text
  have last : Text.Boundary phrase.text phrase.bytes := Text.boundary_byteLength _
  have tree := Phrase.wellFormed_tree phrase isPhrase isSound 0 stands
  have within : (phrase.tree 0).start = 0 ∧ (phrase.tree 0).stop = phrase.bytes :=
    ⟨Phrase.start_tree phrase 0, by rw [Phrase.stop_tree, Nat.zero_add]⟩
  have statement : (phraseStatement phrase).WellFormed phrase.text :=
    .of_children (Node.placed_of_isPlain rfl stands.first last (Nat.zero_le _) (by simp [within])
      (List.pairwise_singleton _ _)) (by simpa [phraseStatement, Node.children] using tree)
  exact .of_children (Node.placed_of_isPlain rfl stands.first last (Nat.zero_le _)
    (by simp [phraseStatement, Node.start, Node.stop, Node.range]) (List.pairwise_singleton _ _))
    (by simpa [phraseProgram, Node.children] using statement)

/-- A program of one phrase is written as the phrase becomes. -/
theorem render_phrase (isPhrase : phrase.isPhrase = true) (isSound : phrase.isSound = true)
    (options : Options) :
    (ofTree (bareContext phrase.text options) (phraseProgram phrase)).edits.render phrase.text
      ⟨0, phrase.bytes⟩ = .ok (phrase.transpiled 0).text := by
  have stands := StandsAt.whole phrase.text
  have first : (SourceText.ofChars phrase.text).charOffset 0 = 0 :=
    OffsetIndex.charOffset_ofText [] phrase.text
  have tree := @Rephrased.becomes phrase.text options 0 phrase (rephrased phrase isPhrase isSound) stands
  rw [first] at tree
  have alone : ∀ node : Node, node.start = 0 → node.stop = phrase.bytes →
      Becomes (bareContext phrase.text options) node (phrase.transpiled 0).text →
      BecomeAll (bareContext phrase.text options) 0 phrase.bytes [node] (phrase.transpiled 0).text := by
    intro node atStart atStop become
    refine (BecomeAll.cons become (becomeAll_nil rfl)).of_eq ?_
    rw [atStart, atStop]
    simp [SourceText.slice]
  have statement : Becomes (bareContext phrase.text options) (phraseStatement phrase)
      (phrase.transpiled 0).text :=
    becomes_of_no_rule (select?_eq_none_of_unruled rfl)
      (alone _ (Phrase.start_tree phrase 0) (by rw [Phrase.stop_tree, Nat.zero_add]) tree)
  have written := @render_children (bareContext phrase.text options) (phraseProgram phrase) []
    [phraseStatement phrase] [] 0 phrase.bytes (wellFormed_phraseProgram isPhrase isSound) rfl rfl
    stands.first (Text.boundary_byteLength _) (Nat.zero_le _) (by simp)
    (by simp [phraseStatement, Node.start, Node.stop, Node.range]) (by simp)
  rw [(alone _ rfl rfl statement _ _).1] at written
  exact written

/-- The value of the phrase is returned and the program wrapped as the options say. -/
theorem text_phrase (isPhrase : phrase.isPhrase = true) (isSound : phrase.isSound = true)
    (options : Options) :
    Ending.text (.ofChars phrase.text) (phraseProgram phrase)
        (ofTree (bareContext phrase.text options) (phraseProgram phrase)).edits options =
      .ok ((phrase.transpiled 0).program options.addReturn options.wrapAsync) := by
  have nothing : (ofTree (bareContext phrase.text options) (phraseProgram phrase)).edits.render
      (SourceText.ofChars phrase.text).chars ⟨0, (phraseStatement phrase).start⟩ = .ok _ :=
    @render_children (bareContext phrase.text options) (phraseProgram phrase) [] []
      [phraseStatement phrase] 0 0 (wellFormed_phraseProgram isPhrase isSound) rfl rfl
      (Text.boundary_zero _) (Text.boundary_zero _) (Nat.le_refl _) (by simp) (by simp) (by simp)
  have before : Ending.write (.ofChars phrase.text)
      (ofTree (bareContext phrase.text options) (phraseProgram phrase)).edits
      ⟨0, (phraseStatement phrase).start⟩ = .ok [] := by
    rw [Ending.write, nothing]
    simp [rewriteAll, weave, SourceText.slice]
  have written : (ofTree (bareContext phrase.text options) (phraseProgram phrase)).edits.render
      (SourceText.ofChars phrase.text).chars
      ⟨(phraseStatement phrase).start, (SourceText.ofChars phrase.text).byteLength⟩ = .ok _ :=
    render_phrase isPhrase isSound options
  have whole : Ending.write (.ofChars phrase.text)
      (ofTree (bareContext phrase.text options) (phraseProgram phrase)).edits
      ⟨(phraseStatement phrase).start, (SourceText.ofChars phrase.text).byteLength⟩ =
        .ok (phrase.transpiled 0).text := by
    rw [Ending.write, written]
  have last : (phraseProgram phrase).statements.getLast? = some (phraseStatement phrase) := rfl
  have body : Ending.body (.ofChars phrase.text) (phraseProgram phrase)
      (ofTree (bareContext phrase.text options) (phraseProgram phrase)).edits options =
      .ok ((phrase.transpiled 0).line options.addReturn) := by
    unfold Ending.body
    rw [last]
    cases options.addReturn with
    | true =>
        simp only [before, whole]
        rfl
    | false => exact whole
  rw [Ending.text, body]
  cases options.wrapAsync with
  | true => rfl
  | false => rfl

theorem transpile_phrase (isPhrase : phrase.isPhrase = true) (isSound : phrase.isSound = true)
    (isStatement : phrase.isStatement = true) (options : Options) :
    ∃ locations widgets, transpile (String.ofList phrase.text) options .empty =
      .ok ⟨String.ofList ((phrase.transpiled 0).program options.addReturn options.wrapAsync),
        locations, widgets⟩ := by
  have parsed : parse phrase.text = phraseProgram phrase := parse_phrase isPhrase isStatement isSound
  have faultless : (parse phrase.text).hasFault = !phrase.isSound :=
    hasFault_parse_program isPhrase isStatement false false
  rw [isSound] at faultless
  have text := text_phrase isPhrase isSound options
  refine ⟨if options.emitLocations then
      some (ofTree (bareContext phrase.text options) (phraseProgram phrase)).locations else none,
    if options.emitWidgets then
      some (ofTree (bareContext phrase.text options) (phraseProgram phrase)).widgets else none, ?_⟩
  rw [transpile_of_parse parsed (parsed ▸ faultless)]
  rw [bareContext] at text
  simp only [transpileTree, bind, Except.bind, text]
  rfl

/-- The output for a program of one phrase is a program again exactly if no name of a member becomes a
call. -/
theorem exists_readProgram_transpiled (isPhrase : phrase.isPhrase = true)
    (isSound : phrase.isSound = true) (isStatement : phrase.isStatement = true)
    (returned isAsync : Bool) :
    (∃ tree, readProgram (.ofString (String.ofList ((phrase.transpiled 0).program returned isAsync))) =
      .ok tree) ↔ phrase.keysStay = true := by
  have becomesPhrase := Phrase.isPhrase_transpiled phrase isPhrase isSound 0
  have becomesStatement : (phrase.transpiled 0).isStatement = true := by
    rw [Phrase.isStatement_transpiled, isStatement]
  have faults := hasFault_parse_program becomesPhrase becomesStatement returned isAsync
  rw [Phrase.isSound_transpiled phrase isSound] at faults
  rw [exists_readProgram_iff, SourceText.ofString, String.toList_ofList, SourceText.ofChars, faults,
    Bool.not_eq_false']

end Programs

/-- The call of a function with an object whose member is named by a literal. -/
def namedMember : Phrase :=
  .call (.name ['f']) [.object [.pair (.quoted ['a']) (.number 1)]]

/-- Every program of one phrase is transpiled under all options. The output is the program of what the
phrase becomes, and it is accepted exactly if no literal that is notation names a member of an
object. -/
theorem output_accepted_iff (phrase : Phrase) (options : Options) (isPhrase : phrase.isPhrase = true)
    (isSound : phrase.isSound = true) (isStatement : phrase.isStatement = true) :
    ∃ result, transpile (String.ofList phrase.text) options .empty = .ok result ∧
      result.output =
        String.ofList ((phrase.transpiled 0).program options.addReturn options.wrapAsync) ∧
      ((∃ tree, readProgram (.ofString result.output) = .ok tree) ↔ phrase.keysStay = true) := by
  obtain ⟨locations, widgets, transpiled⟩ := transpile_phrase isPhrase isSound isStatement options
  exact ⟨_, transpiled, rfl, exists_readProgram_transpiled isPhrase isSound isStatement _ _⟩

/-- The name of the member of an object is a literal that is notation, and so the output is refused. -/
theorem output_accepted_iff_namedMember :
    namedMember.isPhrase = true ∧ namedMember.keysStay = false ∧
      ∃ result, transpile (String.ofList namedMember.text) {} .empty = .ok result ∧
        result.output = String.ofList ((namedMember.transpiled 0).program true false) ∧
        ((∃ tree, readProgram (.ofString result.output) = .ok tree) ↔ namedMember.keysStay = true) :=
  ⟨by decide +kernel, by decide +kernel,
    output_accepted_iff namedMember {} (by decide +kernel) (by decide +kernel) (by decide +kernel)⟩

theorem output_refused :
    ∃ result, transpile "f(\x7b\"a\": 1\x7d)" {} .empty = .ok result ∧
      result.output = "return f(\x7bm(\"a\", 3): 1\x7d)" ∧
      ¬ ∃ tree, readProgram (.ofString result.output) = .ok tree := by
  obtain ⟨locations, widgets, transpiled⟩ := @transpile_phrase namedMember (by decide +kernel)
    (by decide +kernel) (by decide +kernel) {}
  have source : String.ofList namedMember.text = "f(\x7b\"a\": 1\x7d)" := by decide +kernel
  have output : String.ofList ((namedMember.transpiled 0).program true false) =
      "return f(\x7bm(\"a\", 3): 1\x7d)" := by decide +kernel
  rw [source] at transpiled
  refine ⟨_, transpiled, output, fun accepted => ?_⟩
  have stays := (@exists_readProgram_transpiled namedMember (by decide +kernel) (by decide +kernel)
    (by decide +kernel) _ _).mp accepted
  exact absurd stays (by decide +kernel)

end Pass

end PatternScript
