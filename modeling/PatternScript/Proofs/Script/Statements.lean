import PatternScript.Proofs.Script.Refusal

/-!
Contract: phrases as statements, alone or behind the word that returns their value.

A statement that the end of the program or of a block follows needs no semicolon. It is read as long as
its phrase is sound.

Owns: where a statement may end, and reading and refusing statements made of a phrase.
Does not own: programs.
-/

namespace PatternScript.Script

open Reader

/-! ## The end of a statement -/

/-- The program ends, or the next line ends a block. -/
def endsStatement : List Char → Bool
  | [] => true
  | c :: rest => c == '\n' && rest.head? == some '\x7d'

theorem cases_endsStatement {rest : List Char} (ends : endsStatement rest = true) :
    rest = [] ∨ ∃ more, rest = '\n' :: '\x7d' :: more := by
  cases rest with
  | nil => exact .inl rfl
  | cons c rest =>
      simp only [endsStatement, Bool.and_eq_true, beq_iff_eq] at ends
      obtain ⟨rfl, brace⟩ := ends
      cases rest with
      | nil => cases brace
      | cons d more =>
          cases brace
          exact .inr ⟨more, rfl⟩

theorem closes_of_endsStatement {rest : List Char} (ends : endsStatement rest = true) :
    closes rest = true := by
  rcases cases_endsStatement ends with rfl | ⟨more, rfl⟩
  · rfl
  · rfl

theorem omitsSemicolon_of_ends {commentEnds : Bool} {rest : List Char}
    (ends : endsStatement rest = true) : omitsSemicolon commentEnds rest = true := by
  rcases cases_endsStatement ends with rfl | ⟨more, rfl⟩
  · rfl
  · have brace : continuesStatement ('\x7d' :: more) = false := rfl
    simp [omitsSemicolon, omitsSemicolonUpTo, ahead, isLineEnd, endsAtLine, passGap, isPlainBlank,
      brace]

namespace Reader

variable {input next : Input}

/-- A semicolon that may be left out is, and nothing is read. -/
theorem semicolon_omitted {commentEnds : Bool} (omitted : omitsSemicolon commentEnds input.rest = true) :
    semicolon commentEnds input = some ((), { input with stop := input.offset }) := by
  have stays : passToOmitted commentEnds input = some ((), input) := by
    refine iterate_fails ?_
    unfold notOmitted
    refine bind_fails ?_ _
    rw [bind_step unread_step, omitted]
    rfl
  unfold semicolon
  rw [bind_step stays, bind_step unread_step, omitted]
  rfl

theorem semicolon_step {commentEnds : Bool} (ends : endsStatement input.rest = true)
    (behind : input.stop = input.offset) : semicolon commentEnds input = some ((), input) := by
  rw [semicolon_omitted (omitsSemicolon_of_ends ends)]
  cases input with
  | mk rest offset stop comments =>
      obtain rfl : stop = offset := behind
      rfl

section Kept

variable {commentEnds : Bool} {lead token : List Char}

theorem passToOmitted_kept (kept : omitsSemicolon commentEnds input.rest = false)
    (split : input.rest = lead ++ token) (blank : lead.all isSeparator = true)
    (starts : startsToken token = true) : passToOmitted commentEnds input = some ((), input) := by
  refine iterate_fails ?_
  have here : notOmitted commentEnds input = some ((), input) := by
    unfold notOmitted
    rw [bind_step unread_step, kept]
    rfl
  rw [bind_step here, bind_step (passSeparators_step split blank starts)]
  simp [passComment, commentAt?_of_startsToken starts]

/-- A semicolon that may not be left out has to be there. -/
theorem semicolon_kept_fails (kept : omitsSemicolon commentEnds input.rest = false)
    (split : input.rest = lead ++ token) (blank : lead.all isSeparator = true)
    (starts : startsToken token = true) (other : token.head? ≠ some ';') :
    semicolon commentEnds input = none := by
  unfold semicolon
  rw [bind_step (passToOmitted_kept kept split blank starts), bind_step unread_step, kept]
  simp only [Bool.false_eq_true, if_false]
  rw [bind_step (skip_blank split blank starts)]
  exact exactly_fails other

end Kept

/-- A line end alone decides on the next token. -/
theorem omitsSemicolon_line {commentEnds : Bool} {c : Char} {more : List Char}
    (notBlank : isPlainBlank c = false) (notSlash : c ≠ '/') :
    omitsSemicolon commentEnds ('\n' :: c :: more) = !continuesStatement (c :: more) := by
  have gap : passGap true ((c :: more).length + 1) false (c :: more) = (.passed, c :: more) := by
    rw [passGap, List.dropWhile_cons_of_neg (by simp [notBlank])]
    split <;> simp_all
  have decided : endsAtLine (c :: more) = !continuesStatement (c :: more) := by rw [endsAtLine, gap]
  simp [omitsSemicolon, omitsSemicolonUpTo, ahead, isLineEnd, decided]

/-- Statements that are phrases start with such a character. -/
def opensStatement (c : Char) : Bool :=
  c == '"' || isNameStart c

theorem of_opensStatement {c : Char} (opens : opensStatement c = true) :
    isLineEnd c = false ∧ isPlainBlank c = false ∧
      c ∉ ['\x00', '\x7b', '\x7d', '(', ')', ']', '\\', ';', '@', '#', '/'] := by
  have closed : ∀ d ∈ ['\n', '\u2028', '\u2029', ' ', '\x00', '\x7b',
      '\x7d', '(', ')', ']', '\\', ';', '@', '#', '/'], opensStatement d = false :=
    forall_mem_of_all (by decide)
  have other : ∀ d ∈ ['\n', '\u2028', '\u2029', ' ', '\x00', '\x7b', '\x7d', '(', ')', ']', '\\',
      ';', '@', '#', '/'], c ≠ d := by
    rintro d member rfl
    exact absurd opens (by simp [closed c member])
  refine ⟨?_, ?_, fun member => other c (by simp_all) rfl⟩
  · simp [isLineEnd, other]
  · simp only [opensStatement, isNameStart, isNamePart, Bool.or_eq_true, Bool.and_eq_true, beq_iff_eq,
      decide_eq_true_eq] at opens
    rcases opens with rfl | ⟨⟨⟨large, _⟩, _⟩, _⟩
    · decide
    · simp only [isPlainBlank, Bool.or_eq_false_iff, beq_eq_false_iff_ne, Bool.and_eq_false_iff,
        decide_eq_false_iff_not]
      exact ⟨other ' ' (by simp), .inr (by omega)⟩

section Behind

variable {c : Char} {more : List Char} {commentEnds : Bool}

theorem startsToken_of_opens (opens : opensStatement c = true) : startsToken (c :: more) = true := by
  simp only [opensStatement, isNameStart, Bool.or_eq_true, Bool.and_eq_true, beq_iff_eq] at opens
  rcases opens with rfl | ⟨isPart, _⟩
  · rfl
  · exact startsToken_of_isNamePart isPart

theorem omitsSemicolon_space (opens : opensStatement c = true) :
    omitsSemicolon commentEnds (' ' :: c :: more) = false := by
  obtain ⟨notLine, notBlank, other⟩ := of_opensStatement opens
  simp only [List.mem_cons, List.not_mem_nil, or_false, not_or] at other
  obtain ⟨notEnd, _, _, _, _, _, _, _, _, _, notSlash⟩ := other
  simp [omitsSemicolon, omitsSemicolonUpTo, ahead, notEnd, notSlash, notLine, notBlank,
    show isLineEnd ' ' = false from rfl, show isPlainBlank ' ' = true from rfl]

theorem passToOmitted_space (opens : opensStatement c = true) (split : input.rest = ' ' :: c :: more) :
    passToOmitted commentEnds input = some ((), input) :=
  @passToOmitted_kept _ _ [' '] (c :: more) (by rw [split, omitsSemicolon_space opens]) split rfl
    (startsToken_of_opens opens)

theorem atOmitted_space (opens : opensStatement c = true) (split : input.rest = ' ' :: c :: more) :
    atOmitted commentEnds input = some (false, input) := by
  refine looks_false ?_
  rw [bind_step (passToOmitted_space opens split), bind_step unread_step, split,
    omitsSemicolon_space opens]
  rfl

theorem semicolon_fails (opens : opensStatement c = true) (split : input.rest = ' ' :: c :: more) :
    semicolon commentEnds input = none := by
  have other : c ≠ ';' := fun same => (of_opensStatement opens).2.2 (by simp [same])
  exact @semicolon_kept_fails _ _ [' '] (c :: more) (by rw [split, omitsSemicolon_space opens]) split rfl
    (startsToken_of_opens opens) (by simpa using other)

end Behind

end Reader

namespace Grammar

variable {self : Recursor} {input next : Input} {lead rest : List Char} {phrase : Phrase}

/-! ## What a statement starts with -/

/-- What may stand behind the name or the literal that a phrase starts with: nothing, an access, or a
call whose arguments are nested less deeply than the phrase. -/
inductive Behind (depth : Nat) : List Char → Prop where
  | nothing : Behind depth []
  | access {property after : List Char} (isProperty : isWord property = true) :
      Behind depth ('.' :: (property ++ after))
  | call {given : List Phrase} {after : List Char}
      (arePhrases : Phrase.arePhrases false given = true) (deep : Phrase.depthAll given + 1 ≤ depth)
      (onward : ∀ rest, follows rest = true → follows (after ++ rest) = true) :
      Behind depth ('(' :: (Phrase.listText given ++ ')' :: after))

namespace Behind

variable {depth : Nat} {after : List Char}

theorem follows_append (behind : Behind depth after) (following : follows rest = true) :
    follows (after ++ rest) = true := by
  cases behind with
  | nothing => exact following
  | @access property after isProperty =>
      cases property with
      | nil => cases isProperty
      | cons c more =>
          simp only [isWord, Bool.and_eq_true] at isProperty
          simp [follows, isProperty.1]
  | call => simp [follows]

theorem append {more : List Char} (behind : Behind depth after) (further : Behind depth more) :
    Behind depth (after ++ more) := by
  cases behind with
  | nothing => exact further
  | access isProperty =>
      rw [List.cons_append, List.append_assoc]
      exact .access isProperty
  | call arePhrases deep onward =>
      rw [List.cons_append, List.append_assoc, List.cons_append]
      refine .call arePhrases deep fun rest following => ?_
      rw [List.append_assoc]
      exact onward _ (further.follows_append following)

theorem mono {less : Nat} (behind : Behind less after) (deeper : less ≤ depth) :
    Behind depth after := by
  cases behind with
  | nothing => exact .nothing
  | access isProperty => exact .access isProperty
  | call arePhrases deep onward => exact .call arePhrases (Nat.le_trans deep deeper) onward

end Behind

/-- A statement starts with the name or the literal that its phrase starts with. -/
theorem exists_opening (phrase : Phrase) : phrase.isPhrase = true → phrase.isStatement = true →
    ∃ (key : Phrase) (after : List Char), key.isPhrase = true ∧ key.isKey = true ∧
      phrase.text = key.text ++ after ∧ Behind phrase.depth after := by
  induction phrase using Phrase.induction with
  | quoted text =>
      exact fun isPhrase _ => ⟨.quoted text, [], isPhrase, rfl, (List.append_nil _).symm, .nothing⟩
  | name word =>
      exact fun isPhrase _ => ⟨.name word, [], isPhrase, rfl, (List.append_nil _).symm, .nothing⟩
  | access base property inductionHypothesis =>
      intro isPhrase isStatement
      simp only [Phrase.isPhrase, Bool.and_eq_true] at isPhrase
      obtain ⟨⟨isBase, _⟩, isProperty⟩ := isPhrase
      obtain ⟨key, after, keyPhrase, isKey, spelled, behind⟩ := inductionHypothesis isBase isStatement
      refine ⟨key, after ++ '.' :: (property ++ []), keyPhrase, isKey, ?_, ?_⟩
      · rw [Phrase.text, spelled, List.append_assoc, List.append_nil]
      · exact behind.append (.access isProperty)
  | call function given inductionHypothesis _ =>
      intro isPhrase isStatement
      simp only [Phrase.isPhrase, Bool.and_eq_true] at isPhrase
      obtain ⟨⟨isFunction, _⟩, arePhrases⟩ := isPhrase
      obtain ⟨key, after, keyPhrase, isKey, spelled, behind⟩ :=
        inductionHypothesis isFunction isStatement
      refine ⟨key, after ++ '(' :: (Phrase.listText given ++ [')']), keyPhrase, isKey, ?_, ?_⟩
      · rw [Phrase.text, spelled, List.append_assoc]
      · refine (behind.mono ?_).append (.call arePhrases ?_ fun _ => id)
        · exact Nat.le_max_left ..
        · exact Nat.le_max_right ..
  | number value => exact fun _ isStatement => by cases isStatement
  | array items => exact fun _ isStatement => by cases isStatement
  | object members => exact fun _ isStatement => by cases isStatement
  | pair key value => exact fun _ isStatement => by cases isStatement

theorem exists_opensStatement (isPhrase : phrase.isPhrase = true)
    (isStatement : phrase.isStatement = true) :
    ∃ c more, phrase.text = c :: more ∧ opensStatement c = true := by
  obtain ⟨key, after, keyPhrase, isKey, spelled, _⟩ := exists_opening phrase isPhrase isStatement
  cases key with
  | quoted text => exact ⟨'"', _, spelled, rfl⟩
  | name word =>
      simp only [Phrase.isPhrase, Phrase.isFree, Bool.and_eq_true] at keyPhrase
      cases word with
      | nil => cases keyPhrase.1
      | cons c more =>
          simp only [isWord, Bool.and_eq_true] at keyPhrase
          exact ⟨c, _, spelled, by simp [opensStatement, keyPhrase.1.1]⟩
  | _ => cases isKey

/-! ## Expressions as statements -/

theorem punct_comma_fails_of_ends (ends : endsStatement input.rest = true) :
    punct "," input = none := by
  rcases cases_endsStatement ends with finished | ⟨more, split⟩
  · refine @punct_fails input [] [] "," finished rfl rfl ?_
    rw [longestPunctuator?_none (by simp)]
    simp
  · exact @punct_mark_fails input ['\n'] more '\x7d' "," (by decide) (by decide) split rfl

theorem expressions_step {node : Node} (read : self .expression input = some (node, next))
    (ends : endsStatement next.rest = true) : expressions self input = some (node, next) := by
  unfold expressions
  rw [bind_step read, bind_step (many_fails (bind_fails (punct_comma_fails_of_ends ends) _))]
  rfl

theorem expressionStatement_step {node : Node} (starts : startsToken input.rest = true)
    (read : self .expression input = some (node, next)) (ends : endsStatement next.rest = true)
    (behind : next.stop = next.offset) :
    expressionStatement self input =
      some (.mk .expressionStatement none ⟨input.offset, next.stop⟩ [node], next) := by
  unfold expressionStatement
  rw [bind_step (position_token starts), bind_step (expressions_step read ends),
    bind_step (semicolon_step ends behind), finish_step]

/-- A phrase that the end of a statement follows is a statement. -/
theorem expressionStatement_phrase (start : Lead phrase.text)
    (reads : ReadsAs (self .expression) phrase) (split : input.rest = phrase.text ++ rest)
    (ends : endsStatement rest = true) :
    expressionStatement self input =
      some (.mk .expressionStatement none ⟨input.offset, input.offset + phrase.bytes⟩
        [phrase.tree input.offset], input.consume phrase.text rest) := by
  have read := @reads input [] rest rfl split (closes_of_endsStatement ends)
  have starts : startsToken input.rest = true := by
    rw [split]
    exact start.startsToken
  exact expressionStatement_step starts read ends rfl

theorem expressionStatement_fails (starts : startsToken input.rest = true)
    (failed : self .expression input = none) : expressionStatement self input = none := by
  unfold expressionStatement
  rw [bind_step (position_token starts)]
  refine bind_fails ?_ _
  unfold expressions
  exact bind_fails failed _

/-! ## Statements -/

/-- Blanks before a statement are passed over. -/
theorem statement_blank {text : List Char} (split : input.rest = lead ++ text)
    (blank : lead.all isSeparator = true) (starts : startsToken text = true) :
    statement self input = statement self (input.pass lead text) := by
  unfold statement
  rw [bind_step (skipBefore_blank split blank starts), bind_step (skipBefore_token starts)]

/-- A statement that neither a word nor a mark of its own starts is an expression. -/
theorem statement_plain (starts : startsToken input.rest = true)
    (other : ∀ c ∈ input.rest.head?, c ∉ ['\x7b', ';', '@']) (noWord : word input = none) :
    statement self input = expressionStatement self input := by
  unfold statement
  rw [bind_step (skipBefore_token starts), bind_step peek_step]
  cases split : input.rest with
  | nil =>
      simp only [List.head?_nil]
      rw [bind_step (nextWord_none noWord)]
  | cons c more =>
      have other := other c (by simp [split])
      simp only [List.mem_cons, List.not_mem_nil, or_false, not_or] at other
      obtain ⟨notBrace, notSemicolon, notAt⟩ := other
      simp only [List.head?_cons, ↓Char.isValue, Option.some.injEq, notBrace, imp_self, notSemicolon,
        notAt]
      rw [bind_step (nextWord_none noWord)]

theorem wordStatement_free {name : List Char} (free : Phrase.isFree name = true) :
    wordStatement self (String.ofList name) = expressionStatement self := by
  have other := not_mem_of_free free
    (show ∀ other ∈ ["var", "const", "let", "function", "async", "class", "if", "switch", "for",
      "while", "with", "do", "try", "break", "continue", "debugger", "return", "throw", "import",
      "export"], other ∈ Phrase.reserved by decide +kernel)
  generalize String.ofList name = spelled at other ⊢
  simp only [List.mem_cons, List.not_mem_nil, or_false, not_or] at other
  obtain ⟨_, _, _, _, _, _, _, _, _, _, _, _, _, _, _, _, _, _, _, _⟩ := other
  simp [wordStatement, *]

/-- Where a word is next, it alone says what the statement is, unless it is a label. -/
theorem statement_word {name : List Char} (split : input.rest = name ++ rest)
    (isName : isWord name = true) (following : endsName rest = true)
    (noLabel : atLabel (String.ofList name) input = some (false, input)) :
    statement self input = wordStatement self (String.ofList name) input := by
  have next := @nextWord_step input [] rest name split rfl isName following
  have starts : startsToken input.rest = true := by
    rw [split]
    exact startsToken_of_isWord isName
  have marked : ∀ d ∈ ['\x7b', ';', '@'], isNameStart d = false := forall_mem_of_all (by decide)
  unfold statement
  rw [bind_step (skipBefore_token starts), bind_step peek_step]
  cases name with
  | nil => cases isName
  | cons c more =>
      have other : ∀ d ∈ ['\x7b', ';', '@'], c ≠ d := by
        rintro d member rfl
        simp [isWord, marked c member] at isName
      have notBrace := other '\x7b' (by simp)
      have notSemicolon := other ';' (by simp)
      have notAt := other '@' (by simp)
      generalize String.ofList (c :: more) = spelled at next noLabel ⊢
      simp only [split, List.cons_append, List.head?_cons, ↓Char.isValue, Option.some.injEq, notBrace,
        imp_self, notSemicolon, notAt]
      rw [bind_step next]
      simp only
      rw [bind_step noLabel]
      rfl

theorem atLabel_free {name : List Char} (free : Phrase.isFree name = true)
    (split : input.rest = name ++ rest) (following : follows rest = true) :
    atLabel (String.ofList name) input = some (false, input) := by
  have isName : isWord name = true := by
    simp only [Phrase.isFree, Bool.and_eq_true] at free
    exact free.1
  have notKeyword : statementKeywords.contains (String.ofList name) = false := by
    rw [Bool.eq_false_iff]
    exact fun isKnown => @not_mem_of_free name free statementKeywords (by decide +kernel)
      (List.contains_iff_mem.mp isKnown)
  unfold atLabel
  rw [notKeyword]
  simp only [Bool.false_eq_true, if_false]
  refine looks_false ?_
  rw [bind_step (@word_step input [] rest name split rfl isName (endsName_of_follows following))]
  exact punct_fails_of_follows following (by simp)

/-- A phrase that starts with a name or a literal is read as an expression where a statement may
stand. -/
theorem statement_phrase (isPhrase : phrase.isPhrase = true) (isStatement : phrase.isStatement = true)
    (split : input.rest = phrase.text ++ rest) (following : follows rest = true) :
    statement self input = expressionStatement self input := by
  obtain ⟨key, after, keyPhrase, isKey, spelled, behind⟩ := exists_opening phrase isPhrase isStatement
  have onward := behind.follows_append following
  rw [spelled, List.append_assoc] at split
  cases key with
  | quoted text =>
      have starts : startsToken input.rest = true := by
        rw [split]
        rfl
      refine statement_plain starts (by simp [split, Phrase.text]) ?_
      exact @word_fails input [] _ rfl rfl starts (by simp [split, Phrase.text]; decide)
  | name word =>
      have isName : isWord word = true := by
        simp only [Phrase.isPhrase, Phrase.isFree, Bool.and_eq_true] at keyPhrase
        exact keyPhrase.1
      rw [statement_word split isName (endsName_of_follows onward)
        (atLabel_free keyPhrase split onward), Phrase.text, wordStatement_free keyPhrase]
  | _ => cases isKey

/-! ## Returned values -/

theorem statement_return (split : input.rest = "return".toList ++ rest) (ends : endsName rest = true) :
    statement self input = returnStatement self input :=
  statement_word split rfl ends rfl

/-- A phrase behind the word `return` is read as its value. -/
theorem returnStatement_step (isPhrase : phrase.isPhrase = true)
    (isStatement : phrase.isStatement = true) (reads : ReadsAs (self .expression) phrase)
    (split : input.rest = "return".toList ++ ' ' :: (phrase.text ++ rest))
    (ends : endsStatement rest = true) :
    ∃ range start, returnStatement self input =
      some (.mk .returnStatement none range [phrase.tree start],
        input.consume ("return".toList ++ ' ' :: phrase.text) rest) := by
  obtain ⟨c, more, spelled, opens⟩ := exists_opensStatement isPhrase isStatement
  have returned : keyword "return" input =
      some ((), input.consume "return".toList (' ' :: (phrase.text ++ rest))) :=
    @keyword_step input [] (' ' :: (phrase.text ++ rest)) _ "return" rfl split rfl rfl rfl
  have ahead := @atOmitted_space (input.consume "return".toList (' ' :: (phrase.text ++ rest))) c
    (more ++ rest) true opens (by rw [Input.rest_consume, spelled, List.cons_append])
  have read := @reads (input.consume "return".toList (' ' :: (phrase.text ++ rest))) [' '] rest rfl rfl
    (closes_of_endsStatement ends)
  have valued := expressions_step read ends
  refine ⟨⟨input.offset, (input.consume ("return".toList ++ ' ' :: phrase.text) rest).stop⟩,
    (input.consume "return".toList (' ' :: (phrase.text ++ rest))).offset + Text.byteLength [' '], ?_⟩
  unfold returnStatement
  rw [bind_step (position_token (by rw [split]; rfl)), bind_step returned,
    bind_step (maybe_step (by rw [bind_step ahead, bind_step (ensure_step Bool.not_false)]; exact valued)),
    bind_step (semicolon_step ends (Input.stop_consume ..)), finish_step, Input.consume_consume]
  rfl

theorem returnStatement_fails (isPhrase : phrase.isPhrase = true)
    (isStatement : phrase.isStatement = true) (refused : RefusedBy (self .expression) phrase)
    (split : input.rest = "return".toList ++ ' ' :: (phrase.text ++ rest))
    (ends : endsStatement rest = true) : returnStatement self input = none := by
  obtain ⟨c, more, spelled, opens⟩ := exists_opensStatement isPhrase isStatement
  have returned : keyword "return" input =
      some ((), input.consume "return".toList (' ' :: (phrase.text ++ rest))) :=
    @keyword_step input [] (' ' :: (phrase.text ++ rest)) _ "return" rfl split rfl rfl rfl
  have behind : (input.consume "return".toList (' ' :: (phrase.text ++ rest))).rest =
      ' ' :: c :: (more ++ rest) := by rw [Input.rest_consume, spelled, List.cons_append]
  have failed := @refused (input.consume "return".toList (' ' :: (phrase.text ++ rest))) [' '] rest rfl
    rfl (closes_of_endsStatement ends)
  unfold returnStatement
  rw [bind_step (position_token (by rw [split]; rfl)), bind_step returned, bind_step (maybe_fails
    (by rw [bind_step (atOmitted_space opens behind), bind_step (ensure_step Bool.not_false)]
        exact bind_fails failed _))]
  exact bind_fails (semicolon_fails opens behind) _

/-! ## Lines -/

theorem startsToken_line (isPhrase : phrase.isPhrase = true) (isStatement : phrase.isStatement = true)
    (returned : Bool) : startsToken (phrase.line returned ++ rest) = true := by
  cases returned with
  | true => rfl
  | false => exact (lead_text phrase isPhrase (Phrase.isPair_of_isStatement isStatement)).startsToken

/-- The statement that a phrase makes up is read exactly if the phrase is sound. -/
theorem statement_line {depth : Nat} {returned : Bool} (isPhrase : phrase.isPhrase = true)
    (isStatement : phrase.isStatement = true) (deep : phrase.depth ≤ depth)
    (blank : lead.all isSeparator = true) (split : input.rest = lead ++ (phrase.line returned ++ rest))
    (ends : endsStatement rest = true) :
    (phrase.isSound = true → ∃ node, node.hasFault = false ∧ statement (upTo (depth + 1)) input =
      some (node, input.consume (lead ++ phrase.line returned) rest)) ∧
    (phrase.isSound = false → statement (upTo (depth + 1)) input = none) := by
  have notPair := Phrase.isPair_of_isStatement isStatement
  have start := lead_text phrase isPhrase notPair
  have decides : Decides (upTo (depth + 1) .expression) phrase :=
    decides_expression isPhrase notPair deep fun unsound =>
      refusesUpTo_of_unsound phrase isPhrase unsound depth deep
  rw [statement_blank split blank (startsToken_line isPhrase isStatement returned)]
  cases returned with
  | false =>
      rw [Phrase.line_false, statement_phrase isPhrase isStatement (Input.rest_pass ..)
        (follows_of_closes (closes_of_endsStatement ends))]
      refine ⟨fun isSound => ?_, fun unsound => ?_⟩
      · have read := expressionStatement_phrase start (decides.1 isSound)
          (Input.rest_pass input lead (phrase.text ++ rest)) ends
        rw [Input.consume_pass] at read
        refine ⟨_, ?_, read⟩
        rw [Node.hasFault, Node.anyFault, Phrase.hasFault_tree]
        rfl
      · exact expressionStatement_fails start.startsToken (@decides.2 unsound _ [] rest rfl rfl
          (closes_of_endsStatement ends))
  | true =>
      have split : (input.pass lead (phrase.line true ++ rest)).rest =
          "return".toList ++ ' ' :: (phrase.text ++ rest) := rfl
      rw [statement_return split rfl]
      refine ⟨fun isSound => ?_, fun unsound => ?_⟩
      · obtain ⟨range, start, read⟩ :=
          returnStatement_step isPhrase isStatement (decides.1 isSound) split ends
        rw [Input.consume_pass] at read
        refine ⟨_, ?_, read⟩
        rw [Node.hasFault, Node.anyFault, Phrase.hasFault_tree]
        rfl
      · exact returnStatement_fails isPhrase isStatement (decides.2 unsound) split ends

end Grammar

end PatternScript.Script
