import PatternScript.Proofs.Script.Reading

/-!
Contract: phrases that are not sound are not read.

A call cannot be the name of a member: what stands between its parentheses are not parameters. The
object that the member belongs to is then no expression, and nothing around it is one either, since a
list with an item that is not read is not closed behind the items that are.

Owns: refusing members, lists and whole phrases.
Does not own: statements.
-/

namespace PatternScript.Script.Grammar

open Reader

variable {self : Recursor} {input next : Input} {lead rest : List Char} {c : Char}

/-! ## Lists -/

/-- The reader reads nothing where the phrase stands as the item of a list, whatever blanks are before
it. -/
def RefusedBy (reader : Reader Node) (phrase : Phrase) : Prop :=
  ∀ ⦃input : Input⦄ ⦃lead rest : List Char⦄, lead.all isSeparator = true →
    input.rest = lead ++ (phrase.text ++ rest) → closes rest = true → reader input = none

/-- No list goes on or ends here. -/
def Stuck (input : Input) : Prop :=
  ∀ expected ∈ [",", ")", "]", "\x7d"], punct expected input = none

theorem stuck_of_lead {text : List Char} (start : Lead text) (blank : lead.all isSeparator = true)
    (split : input.rest = lead ++ (text ++ rest)) : Stuck input := by
  have other : ∀ expected ∈ [",", ")", "]", "\x7d"], some expected ∉ [none, some "[", some "\x7b"] := by
    simp
  intro expected isCloser
  refine punct_fails split blank start.startsToken fun same => ?_
  have longest := @Lead.longestPunctuator? text rest start
  rw [same] at longest
  exact other expected isCloser longest

theorem stuck_of_phrase {phrase : Phrase} (isPhrase : phrase.isPhrase = true)
    (blank : lead.all isSeparator = true) (split : input.rest = lead ++ (phrase.text ++ rest)) :
    Stuck input := by
  obtain ⟨text, after, spelled, start⟩ := exists_lead isPhrase
  exact stuck_of_lead start blank (by rw [split, spelled, List.append_assoc])

/-- The reader reads exactly the phrase, or nothing. -/
def Passes (reader : Reader Node) (phrase : Phrase) : Prop :=
  ∀ ⦃input : Input⦄ ⦃lead rest : List Char⦄, lead.all isSeparator = true →
    input.rest = lead ++ (phrase.text ++ rest) → closes rest = true →
      reader input = none ∨ ∃ value, reader input = some (value, input.consume (lead ++ phrase.text) rest)

/-- The reader reads the phrase if it is sound, and refuses it if it is not. -/
def Decides (reader : Reader Node) (phrase : Phrase) : Prop :=
  (phrase.isSound = true → ReadsAs reader phrase) ∧
    (phrase.isSound = false → RefusedBy reader phrase)

theorem Decides.passes {reader : Reader Node} {phrase : Phrase} (decides : Decides reader phrase) :
    Passes reader phrase := by
  intro input lead rest blank split closing
  cases isSound : phrase.isSound with
  | true => exact .inr ⟨_, decides.1 isSound blank split closing⟩
  | false => exact .inl (decides.2 isSound blank split closing)

section Lists

variable {item : Reader Node} {items : List Phrase}

/-- The items behind the first are read up to the end of the list, or up to one that is not read, where
nothing follows. -/
theorem exists_repeats_ends (arePhrases : ∀ phrase ∈ items, phrase.isPhrase = true)
    (each : ∀ phrase ∈ items, Passes item phrase) (isEnd : c ∈ [')', ']', '\x7d'])
    (split : input.rest = Phrase.moreText items ++ c :: rest) (behind : input.stop = input.offset) :
    ∃ values next, Repeats (do punct ","; maybe item) input values next ∧
      (Stuck next ∨ next = input.consume (Phrase.moreText items) (c :: rest) ∧
        ∀ phrase ∈ items, ¬RefusedBy item phrase) := by
  induction items generalizing input with
  | nil =>
      refine ⟨[], input, .nil, .inr ⟨?_, by simp⟩⟩
      rw [Phrase.moreText, List.nil_append] at split
      rw [Phrase.moreText, ← split, Input.consume_nil behind]
  | cons phrase more inductionHypothesis =>
      rw [List.forall_mem_cons] at arePhrases each
      rw [Phrase.moreText] at split
      simp only [List.cons_append, List.append_assoc] at split
      have comma := @punct_here input _ ',' "," rfl (by decide) split
      have spaced : (input.consume [',']
          (' ' :: (phrase.text ++ (Phrase.moreText more ++ c :: rest)))).rest =
          [' '] ++ (phrase.text ++ (Phrase.moreText more ++ c :: rest)) := rfl
      have closing := @closes_moreText rest c isEnd more
      rcases each.1 rfl spaced closing with failed | ⟨value, read⟩
      · refine ⟨[none], _, .cons ((bind_step comma _).trans (maybe_fails failed)) ?_ .nil,
          .inl (stuck_of_phrase arePhrases.1 rfl spaced)⟩
        rw [split]
        simp
      · have accepted : ¬RefusedBy item phrase := fun refused => by
          rw [refused rfl spaced closing] at read
          cases read
        rw [Input.consume_consume] at read
        obtain ⟨values, next, repeats, ended⟩ := inductionHypothesis arePhrases.2 each.2
          (Input.rest_consume input ([','] ++ ([' '] ++ phrase.text)) _) rfl
        refine ⟨_, next, .cons ((bind_step comma _).trans (maybe_step read)) ?_ repeats, ?_⟩
        · rw [split]
          simp only [Input.rest_consume, List.length_cons, List.length_append]
          omega
        · rcases ended with stuck | ⟨atEnd, others⟩
          · exact .inl stuck
          · refine .inr ⟨?_, List.forall_mem_cons.mpr ⟨accepted, others⟩⟩
            rw [atEnd, Input.consume_consume, Phrase.moreText]
            simp

/-- The items of a list are read up to its end, or up to one that is not read, where the list does not
end. -/
theorem exists_commaItems_ends (arePhrases : ∀ phrase ∈ items, phrase.isPhrase = true)
    (each : ∀ phrase ∈ items, Passes item phrase) (stops : StopsAtCloser item)
    (isEnd : c ∈ [')', ']', '\x7d']) (split : input.rest = Phrase.listText items ++ c :: rest)
    (behind : input.stop = input.offset) :
    ∃ values next, commaItems item input = some (values, next) ∧
      (Stuck next ∨ next = input.consume (Phrase.listText items) (c :: rest) ∧
        ∀ phrase ∈ items, ¬RefusedBy item phrase) := by
  have checked : ∀ c ∈ [')', ']', '\x7d'], c ∈ closers := forall_mem_of_all (by decide)
  cases items with
  | nil =>
      rw [Phrase.listText, List.nil_append] at split
      refine ⟨_, input, commaItems_none (stops (checked c isEnd) split) (punct_comma_fails isEnd split),
        .inr ⟨?_, by simp⟩⟩
      rw [Phrase.listText, ← split, Input.consume_nil behind]
  | cons first more =>
      rw [List.forall_mem_cons] at arePhrases each
      rw [Phrase.listText, List.append_assoc] at split
      have closing := @closes_moreText rest c isEnd more
      have split : input.rest = [] ++ (first.text ++ (Phrase.moreText more ++ c :: rest)) := split
      rcases each.1 rfl split closing with failed | ⟨value, read⟩
      · have stuck := stuck_of_phrase arePhrases.1 rfl split
        exact ⟨_, input, commaItems_none failed (stuck "," (by simp)), .inl stuck⟩
      · have accepted : ¬RefusedBy item first := fun refused => by
          rw [refused rfl split closing] at read
          cases read
        obtain ⟨values, next, repeats, ended⟩ := exists_repeats_ends arePhrases.2 each.2 isEnd
          (Input.rest_consume input ([] ++ first.text) (Phrase.moreText more ++ c :: rest)) rfl
        have noComma : punct "," next = none := by
          rcases ended with stuck | ⟨atEnd, _⟩
          · exact stuck "," (by simp)
          · rw [atEnd]
            exact punct_comma_fails isEnd rfl
        have separated := repeats.many_eq (bind_fails noComma _)
        refine ⟨_, next, (bind_step (maybe_step read) _).trans (bind_step separated _), ?_⟩
        rcases ended with stuck | ⟨atEnd, others⟩
        · exact .inl stuck
        · refine .inr ⟨?_, List.forall_mem_cons.mpr ⟨accepted, others⟩⟩
          rw [atEnd, Input.consume_consume, Phrase.listText, List.nil_append]

/-- A list with an item that is not sound is not closed. -/
theorem delimitedList_fails {kind : Kind} {opening closing : String} {o : Char}
    (opens : opening.toList = [o]) (isMark : o ∈ marks)
    (ends : closing ∈ [",", ")", "]", "\x7d"]) (isEnd : c ∈ [')', ']', '\x7d'])
    (arePhrases : ∀ phrase ∈ items, phrase.isPhrase = true)
    (each : ∀ phrase ∈ items, Decides item phrase) (stops : StopsAtCloser item)
    (unsound : Phrase.areSound items = false)
    (split : input.rest = o :: (Phrase.listText items ++ c :: rest)) :
    delimitedList kind opening closing item input = none := by
  obtain ⟨values, next, read, ended⟩ := exists_commaItems_ends arePhrases
    (fun phrase member => (each phrase member).passes) stops isEnd
    (Input.rest_consume input [o] (Phrase.listText items ++ c :: rest)) rfl
  have stuck : Stuck next := by
    rcases ended with stuck | ⟨_, accepted⟩
    · exact stuck
    · refine absurd (Phrase.areSound_iff.mpr fun phrase member => ?_) (Bool.eq_false_iff.mp unsound)
      cases isSound : phrase.isSound with
      | true => rfl
      | false => exact absurd ((each phrase member).2 isSound) (accepted phrase member)
  unfold delimitedList
  rw [bind_step (position_token (by rw [split]; exact startsToken_mark isMark)),
    bind_step (punct_here opens isMark split), bind_step read]
  exact bind_fails (stuck closing ends) _

end Lists

/-! ## Members of objects -/

/-- A literal is no parameter. -/
theorem parameters_fails (split : input.rest = '(' :: '"' :: rest) :
    parameters self input = none := by
  have starts : startsToken ('"' :: rest) = true := rfl
  have noMark : ∀ expected, punct expected (input.consume ['('] ('"' :: rest)) = none := by
    intro expected
    refine @punct_fails _ [] _ expected rfl rfl starts fun same => ?_
    rw [longestPunctuator?_none (by simp)] at same
    cases same
  have noParameter : parameter self (input.consume ['('] ('"' :: rest)) = none := by
    unfold parameter
    have notAhead : atParameter (input.consume ['('] ('"' :: rest)) =
        some (false, input.consume ['('] ('"' :: rest)) := by
      refine looks_false ?_
      rw [orElse_fails, orElse_fails (noMark "...")]
      · exact bind_fails (@word_fails _ [] _ rfl rfl starts (by simp; decide)) _
      · rw [bind_step (skip_token starts)]
        exact bind_fails (char_fails (by simp)) _
    rw [bind_step notAhead]
    exact bind_fails (ensure_fails rfl) _
  unfold parameters
  rw [bind_step (position_token (by rw [split]; rfl)), bind_step (punct_here rfl (by decide) split),
    bind_step (commaItems_none noParameter (noMark ","))]
  exact bind_fails (noMark ")") _

/-- A call with a literal is not the name of a member. -/
theorem objectMember_call {word text : List Char} {given : List Phrase} {value : Phrase}
    (free : Phrase.isFree word = true) :
    RefusedBy (objectMember self) (.pair (.call (.name word) (.quoted text :: given)) value) := by
  intro input lead rest blank split _
  simp only [Phrase.text, Phrase.listText, List.append_assoc, List.cons_append] at split
  have isName : isWord word = true := by
    simp only [Phrase.isFree, Bool.and_eq_true] at free
    exact free.1
  generalize text ++ _ = after at split
  have ends : endsName ('(' :: '"' :: after) = true := rfl
  have ahead : AtMember (input.pass lead (word ++ '(' :: '"' :: after)) :=
    atMember_of_word free rfl ends
  have named := @wordNode_step (input.pass lead (word ++ '(' :: '"' :: after)) [] _ word
    .propertyIdentifier rfl rfl isName ends
  have opening := @punct_here
    ((input.pass lead (word ++ '(' :: '"' :: after)).consume ([] ++ word) ('(' :: '"' :: after))
    _ '(' "(" rfl (by decide) rfl
  unfold objectMember propertyName
  rw [bind_step (position_blank split blank (startsToken_of_isWord isName)),
    bind_step (memberHead_step ahead), bind_step (orElse_step named),
    bind_step (atPunct_true opening)]
  simp only [if_true]
  refine bind_fails ?_ _
  unfold functionRest
  exact bind_fails (parameters_fails rfl) _

/-- A member is refused if its value is. -/
theorem objectMember_refused {key value : Phrase} (isPhrase : key.isPhrase = true)
    (isKey : key.isKey = true) (refused : RefusedBy (self .element) value) :
    RefusedBy (objectMember self) (.pair key value) := by
  intro input lead rest blank split closing
  rw [Phrase.text, List.append_assoc, List.cons_append, List.cons_append] at split
  rw [objectMember_keyed isPhrase isKey blank split]
  exact bind_fails (@refused _ [' '] rest rfl rfl closing) _

/-! ## Phrases -/

/-- The phrase is not read as an operand, whatever follows it. -/
def Refuses (self : Recursor) (phrase : Phrase) : Prop :=
  ∀ ⦃input : Input⦄ ⦃rest : List Char⦄, input.rest = phrase.text ++ rest →
    assignable self input = none

/-- An operand is not over at a parenthesis, and the call that it starts is not read. -/
theorem links_fails {first node : Node} (run : Run (link self) first input node next)
    (split : next.rest = '(' :: rest) (failed : argumentList self next = none) :
    links self first input = none := by
  have opening := @punct_here next rest '(' "(" rfl (by decide) split
  have noLink : link self node next = none := by
    unfold link
    rw [orElse_fails, orElse_fails]
    · refine postfixOf_fails fun found after read => ?_
      have longest := @longestPunctuator?_of_punctuator next after [] next.rest found rfl rfl
        (by rw [split]; rfl) read
      rw [split, longestPunctuator?_mark (by decide)] at longest
      cases longest
      decide +kernel
    · unfold callOf
      exact bind_fails failed _
    · refine access_fails (by rw [split]; simp [follows]) ?_
      exact @punct_mark_fails next [] rest '(' "." (by decide) (by decide) split rfl
  unfold links
  rw [bind_step (run.iterate_eq noLink), bind_step (atPunct_true opening), bind_step (atPunct_false
    (@punct_mark_fails next [] rest '(' "[" (by decide) (by decide) split rfl))]
  exact bind_fails (ensure_fails rfl) _

theorem refuses_of_primary {phrase : Phrase}
    (failed : ∀ ⦃input rest⦄, input.rest = phrase.text ++ rest → primary self input = none) :
    Refuses self phrase := by
  intro input rest split
  unfold assignable
  exact bind_fails (failed split) _

theorem refuses_call {function : Phrase} {given : List Phrase} (chain : Chains self function)
    (canHave : function.isBase = true) (arePhrases : ∀ item ∈ given, item.isPhrase = true)
    (each : ∀ item ∈ given, Decides (spread self .expression <|> self .expression) item)
    (stops : StopsAtCloser (spread self .expression <|> self .expression))
    (unsound : Phrase.areSound given = false) : Refuses self (.call function given) := by
  intro input rest split
  rw [Phrase.text, List.append_assoc, List.cons_append, List.append_assoc, List.singleton_append]
    at split
  obtain ⟨first, middle, read, plain, run⟩ :=
    @chain input ('(' :: (Phrase.listText given ++ ')' :: rest)) split (by simp [follows])
      fun notBase => by simp [canHave] at notBase
  have noArguments : argumentList self
      (input.consume function.text ('(' :: (Phrase.listText given ++ ')' :: rest))) = none := by
    rw [argumentList_eq]
    exact delimitedList_fails rfl (by decide) (by simp) (by simp) arePhrases each stops unsound rfl
  unfold assignable
  rw [bind_step read, plain]
  exact bind_fails (links_fails run rfl noArguments) _

theorem refusedBy_element {phrase : Phrase} (isPhrase : phrase.isPhrase = true)
    (notPair : phrase.isPair = false) (refuses : Refuses self phrase) :
    RefusedBy (element self) phrase := by
  intro input lead rest blank split closing
  have start := lead_text phrase isPhrase notPair
  rw [element_blank split blank start.startsToken]
  exact element_fails (start.atOperand rfl (follows_of_closes closing)) (refuses rfl)

theorem refusedBy_orElse {goal : Goal} {item : Reader Node} {phrase : Phrase}
    (isPhrase : phrase.isPhrase = true) (refused : RefusedBy item phrase) :
    RefusedBy (spread self goal <|> item) phrase := by
  intro input lead rest blank split closing
  obtain ⟨text, after, spelled, start⟩ := exists_lead isPhrase
  rw [orElse_fails (spread_fails start blank (by rw [split, spelled, List.append_assoc]))]
  exact refused blank split closing

/-- What the grammar down to a depth does with a phrase that is not sound. -/
def RefusesUpTo (depth : Nat) (phrase : Phrase) : Prop :=
  (phrase.isPair = false → Refuses (upTo depth) phrase) ∧
    (phrase.isPair = true → RefusedBy (objectMember (upTo (depth + 1))) phrase)

theorem decides_element {phrase : Phrase} {depth : Nat} (isPhrase : phrase.isPhrase = true)
    (notPair : phrase.isPair = false) (deep : phrase.depth ≤ depth)
    (refuses : phrase.isSound = false → RefusesUpTo depth phrase) :
    Decides (element (upTo depth)) phrase := by
  refine ⟨fun isSound => ?_, fun unsound => ?_⟩
  · have chain := (readsUpTo_of_isSound phrase isPhrase isSound depth deep).1 notPair
    exact element_of_chains isPhrase notPair chain
  · exact refusedBy_element isPhrase notPair ((refuses unsound).1 notPair)

theorem decides_expression {phrase : Phrase} {depth : Nat} (isPhrase : phrase.isPhrase = true)
    (notPair : phrase.isPair = false) (deep : phrase.depth ≤ depth)
    (refuses : phrase.isSound = false → RefusesUpTo depth phrase) :
    Decides (expression (upTo depth)) phrase := by
  refine ⟨fun isSound => ?_, fun unsound => ?_⟩
  · have chain := (readsUpTo_of_isSound phrase isPhrase isSound depth deep).1 notPair
    exact expression_of_chains isPhrase notPair chain
  · have refused := refusedBy_element isPhrase notPair ((refuses unsound).1 notPair)
    exact fun _ _ _ blank split closing => expression_fails (refused blank split closing)

theorem decides_member {phrase : Phrase} {depth : Nat} (isPhrase : phrase.isPhrase = true)
    (isPair : phrase.isPair = true) (deep : phrase.depth ≤ depth)
    (refuses : phrase.isSound = false → RefusesUpTo depth phrase) :
    Decides (objectMember (upTo (depth + 1))) phrase :=
  ⟨fun isSound => (readsUpTo_of_isSound phrase isPhrase isSound depth deep).2 isPair,
    fun unsound => (refuses unsound).2 isPair⟩

theorem decides_orElse {goal : Goal} {item : Reader Node} {phrase : Phrase}
    (isPhrase : phrase.isPhrase = true) (decides : Decides item phrase) :
    Decides (spread self goal <|> item) phrase :=
  ⟨fun isSound => readsAs_orElse isPhrase (decides.1 isSound),
    fun unsound => refusedBy_orElse isPhrase (decides.2 unsound)⟩

/-- No phrase is read that is not sound, whatever is deep enough for it. -/
theorem refusesUpTo_of_unsound (phrase : Phrase) :
    phrase.isPhrase = true → phrase.isSound = false → ∀ depth, phrase.depth ≤ depth →
      RefusesUpTo depth phrase := by
  have phrases : ∀ {pairs items}, Phrase.arePhrases pairs items = true → ∀ item ∈ items,
      item.isPhrase = true :=
    fun arePhrases item member => (Phrase.arePhrases_iff.mp arePhrases item member).1
  induction phrase using Phrase.induction with
  | quoted text => exact fun _ unsound => by cases unsound
  | number value => exact fun _ unsound => by cases unsound
  | name word => exact fun _ unsound => by cases unsound
  | access base property inductionHypothesis =>
      intro isPhrase unsound depth deep
      simp only [Phrase.isPhrase, Bool.and_eq_true] at isPhrase
      obtain ⟨⟨isBase, canHave⟩, _⟩ := isPhrase
      refine ⟨fun _ input rest split => ?_, fun isPair => by cases isPair⟩
      have refuses := (inductionHypothesis isBase unsound depth deep).1 (Phrase.isPair_of_isBase canHave)
      rw [Phrase.text, List.append_assoc] at split
      exact refuses split
  | call function given function_ih given_ih =>
      intro isPhrase unsound depth deep
      simp only [Phrase.isPhrase, Bool.and_eq_true] at isPhrase
      obtain ⟨⟨isFunction, canHave⟩, arePhrases⟩ := isPhrase
      obtain ⟨functionDeep, given_deep⟩ := Nat.max_le.mp deep
      have notPair := Phrase.isPair_of_isBase canHave
      refine ⟨fun _ => ?_, fun isPair => by cases isPair⟩
      cases isSound : function.isSound with
      | false =>
          intro input rest split
          rw [Phrase.text, List.append_assoc] at split
          exact (function_ih isFunction isSound depth functionDeep).1 notPair split
      | true =>
          rw [Phrase.isSound, isSound, Bool.true_and] at unsound
          have chain := (readsUpTo_of_isSound function isFunction isSound depth functionDeep).1 notPair
          obtain ⟨below, rfl⟩ := Nat.exists_eq_succ_of_ne_zero (show depth ≠ 0 by omega)
          refine refuses_call chain canHave (phrases arePhrases) (fun item member => ?_)
            (stopsAtCloser_orElse expression_stops) unsound
          obtain ⟨isPhrase, notPair⟩ := Phrase.arePhrases_iff.mp arePhrases item member
          have deep : item.depth ≤ below := Phrase.depthAll_le_iff.mp (by omega) item member
          exact decides_orElse isPhrase (decides_expression isPhrase notPair deep fun unsound =>
            given_ih item member isPhrase unsound below deep)
  | array items inductionHypothesis =>
      intro arePhrases unsound depth deep
      rw [Phrase.depth] at deep
      obtain ⟨below, rfl⟩ := Nat.exists_eq_succ_of_ne_zero (show depth ≠ 0 by omega)
      refine ⟨fun _ => refuses_of_primary fun input rest split => ?_, fun isPair => by cases isPair⟩
      simp only [Phrase.text, List.cons_append, List.append_assoc, List.nil_append] at split
      rw [primary_bracket split, arrayLiteral_eq]
      refine delimitedList_fails rfl (by decide) (by simp) (by simp) (phrases arePhrases)
        (fun item member => ?_) (stopsAtCloser_orElse element_stops) unsound split
      obtain ⟨isPhrase, notPair⟩ := Phrase.arePhrases_iff.mp arePhrases item member
      have deep : item.depth ≤ below := Phrase.depthAll_le_iff.mp (by omega) item member
      exact decides_orElse isPhrase (decides_element isPhrase notPair deep fun unsound =>
        inductionHypothesis item member isPhrase unsound below deep)
  | object members inductionHypothesis =>
      intro arePhrases unsound depth deep
      rw [Phrase.depth] at deep
      obtain ⟨below, rfl⟩ := Nat.exists_eq_succ_of_ne_zero (show depth ≠ 0 by omega)
      refine ⟨fun _ => refuses_of_primary fun input rest split => ?_, fun isPair => by cases isPair⟩
      simp only [Phrase.text, List.cons_append, List.append_assoc, List.nil_append] at split
      rw [primary_brace split, objectLiteral_eq]
      refine delimitedList_fails rfl (by decide) (by simp) (by simp) (phrases arePhrases)
        (fun member isMember => ?_) (stopsAtCloser_orElse objectMember_stops) unsound split
      obtain ⟨isPhrase, isPair⟩ := Phrase.arePhrases_iff.mp arePhrases member isMember
      have deep : member.depth ≤ below := Phrase.depthAll_le_iff.mp (by omega) member isMember
      exact decides_orElse isPhrase (decides_member isPhrase isPair deep fun unsound =>
        inductionHypothesis member isMember isPhrase unsound below deep)
  | pair key value _ inductionHypothesis =>
      intro isPhrase unsound depth deep
      simp only [Phrase.isPhrase, Bool.and_eq_true, Bool.or_eq_true, Bool.not_eq_true'] at isPhrase
      obtain ⟨⟨⟨keyPhrase, named⟩, valuePhrase⟩, notPair⟩ := isPhrase
      refine ⟨fun notPair => (by cases notPair), fun _ => ?_⟩
      cases isKey : key.isKey with
      | true =>
          rw [Phrase.isSound, isKey, Bool.true_and] at unsound
          have refuses := (inductionHypothesis valuePhrase unsound depth deep).1 notPair
          exact objectMember_refused keyPhrase isKey (refusedBy_element valuePhrase notPair refuses)
      | false =>
          -- Only a call of a name with a literal can stand there otherwise.
          rw [isKey] at named
          obtain ⟨word, text, given, rfl⟩ := Phrase.exists_of_isLiteralCall (named.resolve_left (by simp))
          simp only [Phrase.isPhrase, Bool.and_eq_true] at keyPhrase
          exact objectMember_call keyPhrase.1.1

end PatternScript.Script.Grammar
