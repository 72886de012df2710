import PatternScript.Proofs.Script.Expressions
import PatternScript.Script.Parse

/-!
Contract: sound phrases are read as their trees.

Items of lists and members of objects are read by the constructs one level further down, so that the
bound on the nesting depth has to reach as deep as the phrase does.

Owns: reading items, members and whole phrases.
Does not own: statements.
-/

namespace PatternScript.Script.Grammar

open Reader

variable {self : Recursor} {input next : Input} {lead rest : List Char} {c : Char}

/-! ## Where a list ends -/

theorem primary_fails (isCloser : c ∈ closers) (split : input.rest = c :: rest) :
    primary self input = none := by
  have checked : ∀ c ∈ closers, c ∉ primaryMarks ∧ c.isDigit = false ∧ startsToken [c] = true ∧
      isNameStart c = false ∧ c ≠ '\\' := forall_mem_of_all (by decide)
  obtain ⟨other, notDigit, starts, notName⟩ := checked c isCloser
  have noWord : word input = none := @word_fails input [] _ split rfl starts (by simpa using notName)
  simp only [primaryMarks, List.mem_cons, List.not_mem_nil, or_false, not_or] at other
  obtain ⟨_, _, _, _, _, _, _, _, _, _, _⟩ := other
  unfold primary
  rw [bind_step (skipBefore_token (by rw [split]; exact starts)), bind_step peek_step]
  simp only [split, List.head?_cons, notDigit]
  simp [*]
  rw [bind_step (nextWord_none noWord)]
  rfl

theorem element_stops : StopsAtCloser (element self) := by
  intro input c rest isCloser split
  have checked : ∀ c ∈ closers, c ∉ ['+', '-', '!', '~'] ∧ startsToken [c] = true ∧
      isNameStart c = false ∧ c ≠ '\\' := forall_mem_of_all (by decide)
  obtain ⟨notOperator, starts, notName⟩ := checked c isCloser
  have noWord : word input = none := @word_fails input [] _ split rfl starts (by simpa using notName)
  refine element_fails ⟨by rw [split]; exact starts, ⟨c, rest, split, notOperator⟩, ?_⟩ ?_
  · intro name next isRead
    rw [noWord] at isRead
    cases isRead
  · unfold assignable
    exact bind_fails (primary_fails isCloser split) _

theorem spread_stops (goal : Goal) : StopsAtCloser (spread self goal) := by
  intro input c rest isCloser split
  have closing : closes input.rest = true := by
    rw [split]
    simp [closes, isCloser]
  obtain ⟨start, next, positioned, closing⟩ := exists_position_of_closes closing
  unfold spread
  rw [bind_step positioned]
  exact bind_fails (punct_fails_of_closes closing (by simp)) _

/-! ## Members of objects -/

/-- Nothing changes the meaning of the name that is next. -/
structure AtMember (input : Input) : Prop where
  starts : startsToken input.rest = true
  noMark : longestPunctuator? input.rest ∉ [some "@", some "*"]
  noWord : ∀ name next, word input = some (name, next) → name ∉ ["static", "async", "get", "set"]

theorem modifier_fails {names : List String} (ahead : AtMember input)
    (known : ∀ name ∈ names, name ∈ ["static", "async", "get", "set"]) :
    modifier names input = none := by
  unfold modifier
  cases read : word input with
  | none => exact bind_fails read _
  | some answer =>
      rw [bind_step read]
      refine bind_fails (ensure_fails ?_) _
      have other := ahead.noWord answer.1 answer.2 read
      rw [Bool.eq_false_iff]
      exact fun isKnown => other (known _ (List.contains_iff_mem.mp isKnown))

theorem memberHead_step (ahead : AtMember input) :
    memberHead self input = some (⟨[], false, false⟩, input) := by
  have noMark : ∀ mark ∈ ["@", "*"], punct mark input = none := by
    intro mark isMark
    refine @punct_fails input [] _ mark rfl rfl ahead.starts fun same => ahead.noMark ?_
    rw [same]
    simpa using isMark
  have noDecorator : decorator self input = none := by
    unfold decorator
    rw [bind_step (position_token ahead.starts)]
    exact bind_fails (noMark "@" (by simp)) _
  have noAccessor : ((do let _ ← modifier ["get", "set"]) <|> punct "*" : Reader Unit) input = none := by
    rw [orElse_fails (bind_fails (modifier_fails ahead (by simp)) _)]
    exact noMark "*" (by simp)
  unfold memberHead
  rw [bind_step (many_fails noDecorator), bind_step (maybe_fails (modifier_fails ahead (by simp))),
    bind_step (maybe_fails (modifier_fails ahead (by simp))), bind_step (maybe_fails noAccessor)]
  rfl

theorem propertyName_fails (isCloser : c ∈ closers) (split : input.rest = c :: rest) :
    propertyName self input = none := by
  have checked : ∀ c ∈ closers, startsToken [c] = true ∧ (isNameStart c = false ∧ c ≠ '\\') ∧
      (c ≠ '"' ∧ c ≠ '\'') ∧ (c.isDigit = false ∧ c ≠ '.') ∧ c ≠ '#' ∧ c ∈ marks ∧
      "[".toList ≠ [c] := forall_mem_of_all (by decide)
  obtain ⟨starts, notName, notQuote, notNumber, notPrivate, isMark, notBracket⟩ := checked c isCloser
  unfold propertyName
  rw [orElse_fails (@wordNode_fails input [] _ _ split rfl starts (by simpa using notName)),
    orElse_fails (@string_fails input [] _ split rfl starts (by simpa using notQuote)),
    orElse_fails (@number_fails input [] _ split rfl starts (by simpa using notNumber)),
    orElse_fails]
  · unfold privateName
    rw [bind_step (position_token (by rw [split]; exact starts))]
    exact bind_fails (exactly_fails (by simpa [split] using notPrivate)) _
  · unfold computedName
    rw [bind_step (position_token (by rw [split]; exact starts))]
    exact bind_fails (@punct_mark_fails input [] _ c "[" notBracket isMark split rfl) _

theorem objectMember_stops : StopsAtCloser (objectMember self) := by
  intro input c rest isCloser split
  have checked : ∀ c ∈ closers, startsToken [c] = true ∧ (isNameStart c = false ∧ c ≠ '\\') ∧
      c ∈ marks ∧ some (String.ofList [c]) ∉ [some "@", some "*"] :=
    forall_mem_of_all (by decide +kernel)
  obtain ⟨starts, notName, isMark, notMark⟩ := checked c isCloser
  have noWord : word input = none := @word_fails input [] _ split rfl starts (by simpa using notName)
  have ahead : AtMember input := by
    refine ⟨by rw [split]; exact starts, ?_, fun name next isRead => ?_⟩
    · rw [split, longestPunctuator?_mark isMark]
      exact notMark
    · rw [noWord] at isRead
      cases isRead
  unfold objectMember
  rw [bind_step (position_token ahead.starts), bind_step (memberHead_step ahead)]
  exact bind_fails (propertyName_fails isCloser split) _

theorem atMember_of_word {name : List Char} (free : Phrase.isFree name = true)
    (split : input.rest = name ++ rest) (ends : endsName rest = true) : AtMember input := by
  have isName : isWord name = true := by
    simp only [Phrase.isFree, Bool.and_eq_true] at free
    exact free.1
  have start : Lead name :=
    .word free (List.append_nil name).symm fun rest following => following
  refine ⟨by rw [split]; exact start.startsToken, fun isMark => ?_, fun other next isRead => ?_⟩
  · have longest := @Lead.longestPunctuator? name rest start
    rw [← split] at longest
    revert isMark longest
    generalize longestPunctuator? input.rest = found
    revert found
    decide +kernel
  · rw [@word_step input [] rest name split rfl isName ends] at isRead
    cases isRead
    exact not_mem_of_free free (by decide +kernel)

theorem atMember_of_quote (split : input.rest = '"' :: rest) : AtMember input := by
  have starts : startsToken ('"' :: rest) = true := rfl
  refine ⟨by rw [split]; exact starts, ?_, fun name next isRead => ?_⟩
  · rw [split, longestPunctuator?_none (by simp)]
    simp
  · rw [@word_fails input [] _ split rfl starts (by simp; decide)] at isRead
    cases isRead

theorem propertyName_key {key : Phrase} (isPhrase : key.isPhrase = true) (isKey : key.isKey = true)
    (split : input.rest = key.text ++ rest) (ends : endsName rest = true) :
    AtMember input ∧ propertyName self input =
      some (Phrase.asKey (key.tree input.offset), input.consume key.text rest) := by
  cases key with
  | name word =>
      have isName : isWord word = true := by
        simp only [Phrase.isPhrase, Phrase.isFree, Bool.and_eq_true] at isPhrase
        exact isPhrase.1
      have read := @wordNode_step input [] rest word .propertyIdentifier split rfl isName ends
      refine ⟨atMember_of_word isPhrase split ends, ?_⟩
      unfold propertyName
      rw [orElse_step read]
      simp [Phrase.tree, Phrase.asKey, Node.kind, Node.withKind, Phrase.bytes, Phrase.text]
  | quoted text =>
      simp only [Phrase.text, List.cons_append, List.append_assoc, List.nil_append] at split
      have starts : startsToken ('"' :: (text ++ '"' :: rest)) = true := rfl
      have read := @string_step input [] rest text split rfl isPhrase
      refine ⟨atMember_of_quote split, ?_⟩
      unfold propertyName
      rw [orElse_fails (@wordNode_fails input [] _ _ split rfl starts (by simp; decide)),
        orElse_step read]
      simp [Phrase.tree, Phrase.asKey, Node.kind, Phrase.bytes, Phrase.text]
  | _ => cases isKey

/-- The name of a member starts a token. -/
theorem startsToken_key {key : Phrase} (isPhrase : key.isPhrase = true) (isKey : key.isKey = true) :
    startsToken (key.text ++ rest) = true := by
  cases key with
  | name word =>
      simp only [Phrase.isPhrase, Phrase.isFree, Bool.and_eq_true] at isPhrase
      exact startsToken_of_isWord isPhrase.1
  | quoted text => rfl
  | _ => cases isKey

/-- Behind a name that the grammar allows and a colon, only the value of a member is left. -/
theorem objectMember_keyed {key : Phrase} (isPhrase : key.isPhrase = true) (isKey : key.isKey = true)
    (blank : lead.all isSeparator = true) (split : input.rest = lead ++ (key.text ++ ':' :: rest)) :
    objectMember self input = (self .element >>= fun value => finish .pair
        (input.offset + Text.byteLength lead)
        [Phrase.asKey (key.tree (input.offset + Text.byteLength lead)), value])
      (input.consume (lead ++ key.text ++ [':']) rest) := by
  obtain ⟨ahead, named⟩ := @propertyName_key self (input.pass lead (key.text ++ ':' :: rest))
    (':' :: rest) key isPhrase isKey rfl rfl
  rw [Input.consume_pass] at named
  have noCall := @punct_mark_fails (input.consume (lead ++ key.text) (':' :: rest)) [] _ ':' "("
    (by decide) (by decide) rfl rfl
  have colon := @punct_here (input.consume (lead ++ key.text) (':' :: rest)) _ ':' ":" rfl (by decide)
    rfl
  unfold objectMember
  rw [bind_step (position_blank split blank (startsToken_key isPhrase isKey)),
    bind_step (memberHead_step ahead), bind_step named, bind_step (atPunct_false noCall)]
  simp only [Bool.false_eq_true, if_false]
  rw [bind_step (ensure_step (by decide)), bind_step (atPunct_true colon)]
  simp only [if_true]
  rw [bind_step colon, Input.consume_consume]
  rfl

/-- A member with a name that the grammar allows is read as its tree if its value is. -/
theorem objectMember_pair {key value : Phrase} (isPhrase : key.isPhrase = true)
    (isKey : key.isKey = true) (read : ReadsAs (self .element) value) :
    ReadsAs (objectMember self) (.pair key value) := by
  intro input lead rest blank split closing
  rw [Phrase.text, List.append_assoc, List.cons_append, List.cons_append] at split
  have valued := @read (input.consume (lead ++ key.text ++ [':']) (' ' :: (value.text ++ rest)))
    [' '] rest rfl rfl closing
  rw [objectMember_keyed isPhrase isKey blank split, bind_step valued, finish_step,
    Input.consume_consume]
  simp [Phrase.tree, Phrase.bytes, Phrase.text, Nat.add_assoc, show ':'.utf8Size = 1 from rfl,
    show ' '.utf8Size = 1 from rfl]

/-! ## Phrases -/

theorem atClosing_of_closes (closing : closes rest = true) : atClosing rest = true := by
  cases rest with
  | nil => rfl
  | cons c rest =>
      have checked : ∀ c ∈ '\n' :: closers, atClosing [c] = true := forall_mem_of_all (by decide)
      refine checked c ?_
      simp only [closes, Bool.or_eq_true, Bool.and_eq_true, beq_iff_eq, List.contains_iff_mem]
        at closing
      rcases closing with isCloser | ⟨rfl, _⟩
      · exact List.mem_cons_of_mem _ isCloser
      · exact List.mem_cons_self

/-- The reader reads the phrase as an operand: what it starts with, then the accesses and calls
behind that. A point behind a number belongs to it, so that only the end may follow one. -/
def Chains (self : Recursor) (phrase : Phrase) : Prop :=
  ∀ ⦃input : Input⦄ ⦃rest : List Char⦄, input.rest = phrase.text ++ rest → follows rest = true →
    (phrase.isBase = false → closes rest = true) →
      ∃ first middle, primary self input = some (first, middle) ∧ first.isPending = false ∧
        Run (link self) first middle (phrase.tree input.offset) (input.consume phrase.text rest)

/-- A primary expression is an operand on its own. -/
theorem chains_of_primary {phrase : Phrase}
    (read : ∀ ⦃input rest⦄, input.rest = phrase.text ++ rest → follows rest = true →
      (phrase.isBase = false → closes rest = true) →
      primary self input = some (phrase.tree input.offset, input.consume phrase.text rest))
    (plain : ∀ start, (phrase.tree start).isPending = false) : Chains self phrase :=
  fun _ _ split following closing => ⟨_, _, read split following closing, plain _, .done⟩

theorem chains_quoted {text : List Char} (plain : isPlainText text = true) :
    Chains self (.quoted text) := by
  refine chains_of_primary (fun input rest split _ _ => ?_) fun _ => rfl
  simp only [Phrase.text, List.cons_append, List.append_assoc, List.nil_append] at split
  rw [primary_quote split, @string_step input [] rest text split rfl plain]
  simp [Phrase.tree, Phrase.bytes, Phrase.text]

theorem chains_number (value : Nat) : Chains self (.number value) := by
  refine chains_of_primary (fun input rest split _ closing => ?_) fun _ => rfl
  obtain ⟨c, more, digits, isDigit, areDigits⟩ := Phrase.exists_toDigits value
  simp only [Phrase.text, digits, List.cons_append] at split
  rw [primary_digit split isDigit,
    @number_step input [] rest c more split rfl isDigit areDigits (atClosing_of_closes (closing rfl))]
  simp [Phrase.tree, Phrase.bytes, Phrase.text, digits]

theorem chains_name {word : List Char} (free : Phrase.isFree word = true) :
    Chains self (.name word) := by
  refine chains_of_primary (fun input rest split following _ => ?_) fun _ => rfl
  have isName : isWord word = true := by
    simp only [Phrase.isFree, Bool.and_eq_true] at free
    exact free.1
  rw [Phrase.text] at split ⊢
  rw [primary_word split isName (endsName_of_follows following), wordExpression_free free,
    nameOrArrow_step split isName following]

theorem chains_array {items : List Phrase}
    (each : ∀ item ∈ items, ReadsAs (spread self .element <|> self .element) item)
    (stops : StopsAtCloser (spread self .element <|> self .element)) : Chains self (.array items) := by
  refine chains_of_primary (fun input rest split _ _ => ?_) fun start => Phrase.isPending_tree _ start
  simp only [Phrase.text, List.cons_append, List.append_assoc, List.nil_append] at split
  rw [primary_bracket split, arrayLiteral_eq,
    delimitedList_step rfl rfl (by decide) (by decide) each stops split]
  simp [Phrase.tree, Phrase.bytes, Phrase.text]

theorem chains_object {members : List Phrase}
    (each : ∀ member ∈ members, ReadsAs (spread self .element <|> objectMember self) member)
    (stops : StopsAtCloser (spread self .element <|> objectMember self)) :
    Chains self (.object members) := by
  refine chains_of_primary (fun input rest split _ _ => ?_) fun start => Phrase.isPending_tree _ start
  simp only [Phrase.text, List.cons_append, List.append_assoc, List.nil_append] at split
  rw [primary_brace split, objectLiteral_eq,
    delimitedList_step rfl rfl (by decide) (by decide) each stops split]
  simp [Phrase.tree, Phrase.bytes, Phrase.text]

theorem chains_access {base : Phrase} {property : List Char} (chain : Chains self base)
    (canHave : base.isBase = true) (isProperty : isWord property = true) :
    Chains self (.access base property) := by
  intro input rest split following _
  rw [Phrase.text, List.append_assoc, List.cons_append] at split
  have onward : follows ('.' :: (property ++ rest)) = true := by
    cases property with
    | nil => cases isProperty
    | cons c more =>
        simp only [isWord, Bool.and_eq_true] at isProperty
        simp [follows, isProperty.1]
  obtain ⟨first, middle, read, plain, run⟩ :=
    @chain input ('.' :: (property ++ rest)) split onward fun notBase => by simp [canHave] at notBase
  have last := @link_access self (input.consume base.text ('.' :: (property ++ rest))) rest
    (base.tree input.offset) property rfl isProperty following
  refine ⟨first, middle, read, plain, ?_⟩
  have run := run.snoc last
    (by simp only [Input.rest_consume, List.length_cons, List.length_append]; omega)
  rw [Input.consume_consume] at run
  simpa [Phrase.tree, Phrase.bytes, Phrase.text, Phrase.start_tree, Nat.add_assoc] using run

theorem chains_call {function : Phrase} {given : List Phrase} (chain : Chains self function)
    (canHave : function.isBase = true)
    (each : ∀ item ∈ given, ReadsAs (spread self .expression <|> self .expression) item)
    (stops : StopsAtCloser (spread self .expression <|> self .expression)) :
    Chains self (.call function given) := by
  intro input rest split following _
  rw [Phrase.text, List.append_assoc, List.cons_append, List.append_assoc, List.singleton_append]
    at split
  obtain ⟨first, middle, read, plain, run⟩ :=
    @chain input ('(' :: (Phrase.listText given ++ ')' :: rest)) split (by simp [follows])
      fun notBase => by simp [canHave] at notBase
  have last := @link_call self
    (input.consume function.text ('(' :: (Phrase.listText given ++ ')' :: rest))) rest
    (function.tree input.offset) given each stops rfl
  refine ⟨first, middle, read, plain, ?_⟩
  have run := run.snoc last
    (by simp only [Input.rest_consume, List.length_cons, List.length_append]; omega)
  rw [Input.consume_consume] at run
  simpa [Phrase.tree, Phrase.bytes, Phrase.text, Phrase.start_tree, Nat.add_assoc] using run

/-- An operand that the end of an expression follows is that expression. -/
theorem element_of_chains {phrase : Phrase} (isPhrase : phrase.isPhrase = true)
    (notPair : phrase.isPair = false) (chain : Chains self phrase) : ReadsAs (element self) phrase := by
  intro input lead rest blank split closing
  have start := lead_text phrase isPhrase notPair
  have following := follows_of_closes closing
  obtain ⟨first, middle, read, plain, run⟩ :=
    @chain (input.pass lead (phrase.text ++ rest)) rest rfl following fun _ => closing
  rw [Input.consume_pass] at run
  rw [element_blank split blank start.startsToken]
  exact element_step (start.atOperand rfl following) (assignable_step read plain run closing)
    (Phrase.isPending_tree phrase _) closing

theorem expression_of_chains {phrase : Phrase} (isPhrase : phrase.isPhrase = true)
    (notPair : phrase.isPair = false) (chain : Chains self phrase) :
    ReadsAs (expression self) phrase := by
  intro input lead rest blank split closing
  exact expression_step (element_of_chains isPhrase notPair chain blank split closing)
    (Phrase.isPending_tree phrase _)

/-- What stands where three dots may stand has none before it. -/
theorem spread_fails {goal : Goal} {text : List Char} (start : Lead text)
    (blank : lead.all isSeparator = true) (split : input.rest = lead ++ (text ++ rest)) :
    spread self goal input = none := by
  unfold spread
  rw [bind_step (position_blank split blank start.startsToken)]
  refine bind_fails (@punct_fails _ [] (text ++ rest) _ rfl rfl start.startsToken fun dots => ?_) _
  have longest := @Lead.longestPunctuator? text rest start
  rw [dots] at longest
  exact absurd longest (by simp)

/-- The name of a member starts as an expression does. -/
theorem exists_lead {phrase : Phrase} (isPhrase : phrase.isPhrase = true) :
    ∃ start after, phrase.text = start ++ after ∧ Lead start := by
  cases phrase with
  | pair key value =>
      simp only [Phrase.isPhrase, Bool.and_eq_true, Bool.or_eq_true] at isPhrase
      refine ⟨key.text, ':' :: ' ' :: value.text, rfl, lead_text key isPhrase.1.1.1 ?_⟩
      cases key with
      | pair => simp [Phrase.isKey, Phrase.isLiteralCall] at isPhrase
      | _ => rfl
  | _ => exact ⟨_, [], (List.append_nil _).symm, lead_text _ isPhrase rfl⟩

theorem readsAs_orElse {goal : Goal} {item : Reader Node} {phrase : Phrase}
    (isPhrase : phrase.isPhrase = true) (read : ReadsAs item phrase) :
    ReadsAs (spread self goal <|> item) phrase := by
  intro input lead rest blank split closing
  obtain ⟨text, after, spelled, start⟩ := exists_lead isPhrase
  rw [orElse_fails (spread_fails start blank (by rw [split, spelled, List.append_assoc]))]
  exact read blank split closing

theorem stopsAtCloser_orElse {goal : Goal} {item : Reader Node} (stops : StopsAtCloser item) :
    StopsAtCloser (spread self goal <|> item) := by
  intro input c rest isCloser split
  rw [orElse_fails (spread_stops goal isCloser split)]
  exact stops isCloser split

theorem expression_stops : StopsAtCloser (expression self) :=
  fun _ _ _ isCloser split => expression_fails (element_stops isCloser split)

/-- What the grammar down to a depth does with a phrase: it reads a member of an object by the
constructs at the next depth, and everything else as an operand. -/
def ReadsUpTo (depth : Nat) (phrase : Phrase) : Prop :=
  (phrase.isPair = false → Chains (upTo depth) phrase) ∧
    (phrase.isPair = true → ReadsAs (objectMember (upTo (depth + 1))) phrase)

/-- Every sound phrase is read, whatever is deep enough for it. -/
theorem readsUpTo_of_isSound (phrase : Phrase) : phrase.isPhrase = true → phrase.isSound = true →
    ∀ depth, phrase.depth ≤ depth → ReadsUpTo depth phrase := by
  -- The items of a list are read by what the depth below it reads.
  have elements : ∀ depth items, Phrase.arePhrases false items = true →
      (∀ item ∈ items, ReadsUpTo depth item) → ∀ item ∈ items,
        ReadsAs (element (upTo depth)) item ∧ ReadsAs (expression (upTo depth)) item := by
    intro depth items arePhrases each item member
    obtain ⟨isPhrase, notPair⟩ := Phrase.arePhrases_iff.mp arePhrases item member
    have chain := (each item member).1 notPair
    exact ⟨element_of_chains isPhrase notPair chain, expression_of_chains isPhrase notPair chain⟩
  have phrases : ∀ {pairs items}, Phrase.arePhrases pairs items = true → ∀ item ∈ items,
      item.isPhrase = true :=
    fun arePhrases item member => (Phrase.arePhrases_iff.mp arePhrases item member).1
  induction phrase using Phrase.induction with
  | quoted text =>
      intro plain _ depth _
      exact ⟨fun _ => chains_quoted plain, fun isPair => by cases isPair⟩
  | number value =>
      intro _ _ depth _
      exact ⟨fun _ => chains_number value, fun isPair => by cases isPair⟩
  | name word =>
      intro free _ depth _
      exact ⟨fun _ => chains_name free, fun isPair => by cases isPair⟩
  | access base property inductionHypothesis =>
      intro isPhrase isSound depth deep
      simp only [Phrase.isPhrase, Bool.and_eq_true] at isPhrase
      obtain ⟨⟨isBase, canHave⟩, isProperty⟩ := isPhrase
      refine ⟨fun _ => ?_, fun isPair => by cases isPair⟩
      have chain := (inductionHypothesis isBase isSound depth deep).1 (Phrase.isPair_of_isBase canHave)
      exact chains_access chain canHave isProperty
  | call function given function_ih given_ih =>
      intro isPhrase isSound depth deep
      simp only [Phrase.isPhrase, Phrase.isSound, Bool.and_eq_true] at isPhrase isSound
      obtain ⟨⟨isFunction, canHave⟩, arePhrases⟩ := isPhrase
      obtain ⟨soundFunction, areSound⟩ := isSound
      obtain ⟨functionDeep, given_deep⟩ := Nat.max_le.mp deep
      refine ⟨fun _ => ?_, fun isPair => by cases isPair⟩
      have chain := (function_ih isFunction soundFunction depth functionDeep).1
        (Phrase.isPair_of_isBase canHave)
      obtain ⟨below, rfl⟩ := Nat.exists_eq_succ_of_ne_zero (show depth ≠ 0 by omega)
      have each := elements below given arePhrases fun item member =>
        given_ih item member (phrases arePhrases item member) (Phrase.areSound_iff.mp areSound item member)
          below (Phrase.depthAll_le_iff.mp (by omega) item member)
      exact chains_call chain canHave
        (fun item member => readsAs_orElse (phrases arePhrases item member) (each item member).2)
        (stopsAtCloser_orElse expression_stops)
  | array items inductionHypothesis =>
      intro arePhrases areSound depth deep
      rw [Phrase.depth] at deep
      refine ⟨fun _ => ?_, fun isPair => by cases isPair⟩
      obtain ⟨below, rfl⟩ := Nat.exists_eq_succ_of_ne_zero (show depth ≠ 0 by omega)
      have each := elements below items arePhrases fun item member =>
        inductionHypothesis item member (phrases arePhrases item member)
          (Phrase.areSound_iff.mp areSound item member) below
          (Phrase.depthAll_le_iff.mp (by omega) item member)
      exact chains_array
        (fun item member => readsAs_orElse (phrases arePhrases item member) (each item member).1)
        (stopsAtCloser_orElse element_stops)
  | object members inductionHypothesis =>
      intro arePhrases areSound depth deep
      rw [Phrase.depth] at deep
      refine ⟨fun _ => ?_, fun isPair => by cases isPair⟩
      obtain ⟨below, rfl⟩ := Nat.exists_eq_succ_of_ne_zero (show depth ≠ 0 by omega)
      refine chains_object (fun member isMember => ?_) (stopsAtCloser_orElse objectMember_stops)
      obtain ⟨isPhrase, isPair⟩ := Phrase.arePhrases_iff.mp arePhrases member isMember
      have read := inductionHypothesis member isMember isPhrase
        (Phrase.areSound_iff.mp areSound member isMember) below
        (Phrase.depthAll_le_iff.mp (by omega) member isMember)
      exact readsAs_orElse isPhrase (read.2 isPair)
  | pair key value _ inductionHypothesis =>
      intro isPhrase isSound depth deep
      simp only [Phrase.isPhrase, Phrase.isSound, Bool.and_eq_true, Bool.not_eq_true'] at isPhrase isSound
      obtain ⟨⟨⟨keyPhrase, _⟩, valuePhrase⟩, notPair⟩ := isPhrase
      refine ⟨fun notPair => (by cases notPair), fun _ => ?_⟩
      have chain := (inductionHypothesis valuePhrase isSound.2 depth deep).1 notPair
      exact objectMember_pair keyPhrase isSound.1 (element_of_chains valuePhrase notPair chain)

end PatternScript.Script.Grammar
