import PatternScript.Proofs.Script.Statements

/-!
Contract: a statement inside a function that is called on the spot.

The braces of the function may open an object as far as the first tokens tell, and an object is tried
before a block then. No statement made of a phrase is the member of an object: behind the name or the
literal it starts with stands no colon, and a call is followed by no body.

Owns: blocks of one statement, and reading and refusing the function around them.
Does not own: programs.
-/

namespace PatternScript.Script.Grammar

open Reader

variable {input next : Input} {lead rest : List Char} {phrase : Phrase} {depth : Nat}

/-! ## No object -/

theorem parameter_stops {self : Recursor} (stops : StopsAtCloser (self .element)) :
    StopsAtCloser (parameter self) := by
  intro input c rest isCloser split
  unfold parameter atParameter
  rw [bind_step (looks_step _)]
  cases Option.isSome _ with
  | false => exact bind_fails (ensure_fails rfl) _
  | true =>
      rw [bind_step (ensure_step rfl)]
      exact bind_fails (stopsAtCloser_orElse stops isCloser split) _

/-- A parameter reaches as far as the phrase that stands in its place. -/
theorem parameter_passes {self : Recursor} (isPhrase : phrase.isPhrase = true)
    (decides : Decides (self .element) phrase) : Passes (parameter self) phrase := by
  intro input lead rest blank split closing
  unfold parameter atParameter
  rw [bind_step (looks_step _)]
  cases Option.isSome _ with
  | false => exact .inl (bind_fails (ensure_fails rfl) _)
  | true =>
      rw [bind_step (ensure_step rfl)]
      rcases (@decides_orElse self .element _ _ isPhrase decides).passes blank split closing with
        failed | ⟨value, read⟩
      · exact .inl (bind_fails failed _)
      · rw [bind_step read]
        cases value.toElement? with
        | none => exact .inl rfl
        | some element => exact .inr ⟨element, rfl⟩

theorem block_fails {self : Recursor} (following : follows input.rest = true) :
    block self input = none := by
  obtain ⟨lead, token, split, blank, starts, _, longest⟩ := exists_token_of_follows following
  have other : punct "\x7b" (input.pass lead token) = none := by
    refine @punct_fails (input.pass lead token) [] token "\x7b" rfl rfl starts fun same => ?_
    rw [same] at longest
    exact absurd longest (by simp)
  unfold block
  rw [bind_step (position_blank split blank starts)]
  exact bind_fails other _

/-- The parameters of a function reach as far as the arguments that stand in their place. -/
theorem parameters_ends {given : List Phrase} (arePhrases : Phrase.arePhrases false given = true)
    (deep : Phrase.depthAll given ≤ depth)
    (split : input.rest = '(' :: (Phrase.listText given ++ ')' :: rest)) :
    parameters (upTo (depth + 1)) input = none ∨ ∃ node, parameters (upTo (depth + 1)) input =
      some (node, input.consume ('(' :: (Phrase.listText given ++ [')'])) rest) := by
  have each : ∀ item ∈ given, Passes (parameter (upTo (depth + 1))) item := by
    intro item member
    obtain ⟨isPhrase, notPair⟩ := Phrase.arePhrases_iff.mp arePhrases item member
    have itemDeep := Phrase.depthAll_le_iff.mp deep item member
    exact parameter_passes isPhrase (decides_element isPhrase notPair itemDeep fun unsound =>
      refusesUpTo_of_unsound item isPhrase unsound depth itemDeep)
  obtain ⟨values, next, read, ended⟩ := exists_commaItems_ends
    (fun item member => (Phrase.arePhrases_iff.mp arePhrases item member).1) each
    (parameter_stops element_stops) (show ')' ∈ [')', ']', '\x7d'] by simp)
    (Input.rest_consume input ['('] (Phrase.listText given ++ ')' :: rest)) rfl
  unfold parameters
  rw [bind_step (position_token (by rw [split]; rfl)), bind_step (punct_here rfl (by decide) split),
    bind_step read]
  rcases ended with stuck | ⟨rfl, _⟩
  · exact .inl (bind_fails (stuck ")" (by simp)) _)
  · rw [bind_step (punct_here rfl (by decide) rfl), Input.consume_consume, Input.consume_consume]
    cases withoutHoles? values with
    | none => exact .inl rfl
    | some children => exact .inr ⟨_, rfl⟩

/-- Arguments are not followed by a body. -/
theorem functionRest_fails {given : List Phrase} (arePhrases : Phrase.arePhrases false given = true)
    (deep : Phrase.depthAll given ≤ depth) (following : follows rest = true)
    (split : input.rest = '(' :: (Phrase.listText given ++ ')' :: rest)) :
    functionRest (upTo (depth + 1)) input = none := by
  unfold functionRest
  rcases parameters_ends arePhrases deep split with failed | ⟨node, read⟩
  · exact bind_fails failed _
  · rw [bind_step read]
    exact bind_fails (block_fails following) _

/-- A name or a literal with arguments behind it is not the member of an object. -/
theorem objectMember_called {key : Phrase} {given : List Phrase} (isPhrase : key.isPhrase = true)
    (isKey : key.isKey = true) (arePhrases : Phrase.arePhrases false given = true)
    (deep : Phrase.depthAll given ≤ depth) (following : follows rest = true)
    (blank : lead.all isSeparator = true)
    (split : input.rest = lead ++ (key.text ++ '(' :: (Phrase.listText given ++ ')' :: rest))) :
    objectMember (upTo (depth + 1)) input = none := by
  obtain ⟨ahead, named⟩ := @propertyName_key (upTo (depth + 1)) (input.pass lead _)
    ('(' :: (Phrase.listText given ++ ')' :: rest)) key isPhrase isKey (Input.rest_pass ..) rfl
  rw [Input.consume_pass] at named
  unfold objectMember
  rw [bind_step (position_blank split blank (startsToken_key isPhrase isKey)),
    bind_step (memberHead_step ahead), bind_step named,
    bind_step (atPunct_true (punct_here rfl (by decide) rfl))]
  simp only [if_true]
  exact bind_fails (functionRest_fails arePhrases deep following rfl) _

/-- A literal with neither arguments nor a colon behind it is not the member of an object. -/
theorem objectMember_quoted {self : Recursor} {text : List Char} (plain : isPlainText text = true)
    (following : follows rest = true)
    (noCall : punct "(" (input.consume (lead ++ Phrase.text (.quoted text)) rest) = none)
    (blank : lead.all isSeparator = true)
    (split : input.rest = lead ++ (Phrase.text (.quoted text) ++ rest)) :
    objectMember self input = none := by
  obtain ⟨ahead, named⟩ := @propertyName_key self (input.pass lead _) rest (.quoted text) plain rfl
    (Input.rest_pass ..) (endsName_of_follows following)
  rw [Input.consume_pass] at named
  unfold objectMember
  rw [bind_step (position_blank split blank rfl), bind_step (memberHead_step ahead), bind_step named,
    bind_step (atPunct_false noCall)]
  simp only [Bool.false_eq_true, if_false]
  rw [bind_step (ensure_step (by decide)), bind_step (atPunct_false
    (punct_fails_of_follows following (by simp)))]
  exact bind_fails (ensure_fails rfl) _

/-- A brace with something behind it that is not a member opens no object. -/
theorem expression_brace_fails {text : List Char} (start : Lead text)
    (blank : lead.all isSeparator = true) (split : input.rest = '\x7b' :: (lead ++ (text ++ rest)))
    (failed : objectMember (upTo depth) (input.consume ['\x7b'] (lead ++ (text ++ rest))) = none) :
    expression (upTo depth) input = none := by
  have stuck := @stuck_of_lead (input.consume ['\x7b'] (lead ++ (text ++ rest))) lead rest text start
    blank rfl
  have noItem : (spread (upTo depth) .element <|> objectMember (upTo depth))
      (input.consume ['\x7b'] (lead ++ (text ++ rest))) = none := by
    rw [orElse_fails (spread_fails start blank rfl)]
    exact failed
  have starts : startsToken input.rest = true := by
    rw [split]
    rfl
  refine expression_fails (element_fails ⟨starts, ⟨_, _, split, by decide⟩, fun name next read => ?_⟩ ?_)
  · rw [@word_fails input [] _ rfl rfl starts (by simp [split]; decide)] at read
    cases read
  · unfold assignable
    refine bind_fails ?_ _
    rw [primary_brace split, objectLiteral_eq]
    unfold delimitedList
    rw [bind_step (position_token starts), bind_step (punct_here rfl (by decide) split),
      bind_step (commaItems_none noItem (stuck "," (by simp)))]
    exact bind_fails (stuck "\x7d" (by simp)) _

theorem exists_atPropertyName : ∃ answer, atPropertyName input = some (answer, input) := by
  have token : ∃ c, nextToken input = some (c, input) := by
    unfold nextToken
    split
    · exact ⟨_, rfl⟩
    · exact ⟨_, rfl⟩
  obtain ⟨c, found⟩ := token
  unfold atPropertyName
  rw [bind_step found]
  cases c with
  | none => exact ⟨_, rfl⟩
  | some c => exact ⟨_, rfl⟩

/-- A name that stands alone opens no object. -/
theorem opensObject_name {name : List Char} (free : Phrase.isFree name = true)
    (blank : lead.all isSeparator = true) (split : input.rest = '\x7b' :: (lead ++ (name ++ rest)))
    (following : follows rest = true)
    (noCall : punct "(" (input.consume ('\x7b' :: (lead ++ name)) rest) = none) :
    opensObject input = some (false, input) := by
  have isName : isWord name = true := by
    simp only [Phrase.isFree, Bool.and_eq_true] at free
    exact free.1
  have ends := endsName_of_follows following
  have notKeyword : statementKeywords.contains (String.ofList name) = false := by
    rw [Bool.eq_false_iff]
    exact fun isKnown => @not_mem_of_free name free statementKeywords (by decide +kernel)
      (List.contains_iff_mem.mp isKnown)
  have notModifier : ["get", "set", "async", "static"].contains (String.ofList name) = false := by
    rw [Bool.eq_false_iff]
    exact fun isKnown => not_mem_of_free free (by decide +kernel) (List.contains_iff_mem.mp isKnown)
  have noMark : ∀ mark ∈ [":", "="], punct mark (input.consume ('\x7b' :: (lead ++ name)) rest) = none := by
    intro mark isMark
    refine punct_fails_of_follows following fun known => ?_
    revert mark
    decide +kernel
  obtain ⟨answer, answered⟩ := @exists_atPropertyName (input.consume ('\x7b' :: (lead ++ name)) rest)
  refine looks_false ?_
  rw [bind_step (skip_token (by rw [split]; rfl)), bind_step (exactly_step split),
    bind_step (nextWord_step rfl blank isName ends)]
  simp only
  rw [notKeyword, bind_step (ensure_step Bool.not_false), bind_step (word_step rfl blank isName ends),
    Input.consume_consume]
  show (atPropertyName >>= _) (input.consume ('\x7b' :: (lead ++ name)) rest) = none
  rw [bind_step answered, notModifier]
  simp only [Bool.false_and, Bool.false_eq_true, if_false]
  rw [bind_step (atPunct_false (noMark ":" (by simp))), bind_step (atPunct_false noCall),
    bind_step (atPunct_false (noMark "=" (by simp)))]
  exact ensure_fails rfl

/-- No statement that is a phrase is an object, whatever its braces are. -/
theorem opensObject_or_fails (isPhrase : phrase.isPhrase = true) (isStatement : phrase.isStatement = true)
    (deep : phrase.depth ≤ depth) (closing : closes rest = true)
    (split : input.rest = '\x7b' :: (['\n'] ++ (phrase.text ++ rest))) :
    opensObject input = some (false, input) ∨ expression (upTo (depth + 1)) input = none := by
  obtain ⟨key, after, keyPhrase, isKey, spelled, behind⟩ := exists_opening phrase isPhrase isStatement
  have onward := behind.follows_append (follows_of_closes closing)
  have start := lead_text phrase isPhrase (Phrase.isPair_of_isStatement isStatement)
  have named := split
  rw [spelled, List.append_assoc] at named
  -- Without a call, a name is no object by itself, and a literal is no member.
  have uncalled : punct "(" (input.consume ('\x7b' :: (['\n'] ++ key.text)) (after ++ rest)) = none →
      opensObject input = some (false, input) ∨ expression (upTo (depth + 1)) input = none := by
    intro noCall
    cases key with
    | name word => exact .inl (opensObject_name keyPhrase rfl named onward noCall)
    | quoted text =>
        refine .inr (expression_brace_fails start rfl split ?_)
        rw [spelled, List.append_assoc]
        refine objectMember_quoted keyPhrase onward ?_ rfl rfl
        rw [Input.consume_consume]
        exact noCall
    | _ => cases isKey
  cases behind with
  | nothing => exact uncalled (punct_fails_of_closes closing (by simp))
  | @access property after isProperty =>
      refine uncalled ?_
      cases property with
      | nil => cases isProperty
      | cons c more =>
          simp only [isWord, Bool.and_eq_true] at isProperty
          refine @punct_fails _ [] ('.' :: c :: (more ++ after ++ rest)) "(" (by simp) rfl rfl ?_
          rw [longestPunctuator?_dot isProperty.1]
          simp
  | call arePhrases nested further =>
      refine .inr (expression_brace_fails start rfl split ?_)
      refine objectMember_called keyPhrase isKey arePhrases (by omega)
        (further rest (follows_of_closes closing)) (show ['\n'].all isSeparator = true from rfl) ?_
      simp [spelled]

/-! ## Blocks -/

theorem statement_brace_fails (split : input.rest = '\x7d' :: rest) :
    statement (upTo (depth + 1)) input = none := by
  have starts : startsToken input.rest = true := by
    rw [split]
    rfl
  rw [statement_plain starts (by simp [split])
    (@word_fails input [] _ rfl rfl starts (by simp [split]; decide))]
  exact expressionStatement_fails starts (expression_stops (by decide) split)

/-- A block of one statement is read exactly if the phrase of the statement is sound. -/
theorem block_line {returned : Bool} (isPhrase : phrase.isPhrase = true)
    (isStatement : phrase.isStatement = true) (deep : phrase.depth ≤ depth)
    (split : input.rest = '\x7b' :: (['\n'] ++ (phrase.line returned ++ '\n' :: '\x7d' :: rest))) :
    (phrase.isSound = true → ∃ node, node.hasFault = false ∧ block (upTo (depth + 2)) input =
      some (node, input.consume ('\x7b' :: '\n' :: (phrase.line returned ++ ['\n', '\x7d'])) rest)) ∧
    (phrase.isSound = false → block (upTo (depth + 2)) input = none) := by
  have starts : startsToken input.rest = true := by
    rw [split]
    rfl
  have opened := @punct_here input _ '\x7b' "\x7b" rfl (by decide) split
  obtain ⟨reads, refuses⟩ := @statement_line (input.consume ['\x7b'] _) ['\n'] ('\n' :: '\x7d' :: rest)
    phrase depth returned isPhrase isStatement deep rfl (Input.rest_consume ..) rfl
  unfold block
  rw [bind_step (position_token starts), bind_step opened]
  refine ⟨fun isSound => ?_, fun unsound => ?_⟩
  · obtain ⟨node, faultless, read⟩ := reads isSound
    rw [Input.consume_consume] at read
    have ended : statement (upTo (depth + 1)) (input.consume
        (['\x7b'] ++ (['\n'] ++ phrase.line returned)) ('\n' :: '\x7d' :: rest)) = none := by
      rw [@statement_blank _ _ ['\n'] ('\x7d' :: rest) rfl rfl rfl]
      exact statement_brace_fails rfl
    have statements : many (upTo (depth + 2) .statement) (input.consume ['\x7b'] _) = _ :=
      (Repeats.cons read
        (by simp only [Input.rest_consume, List.length_cons, List.length_append]; omega) .nil).many_eq ended
    have closed : ((input.consume (['\x7b'] ++ (['\n'] ++ phrase.line returned))
        ('\n' :: '\x7d' :: rest)).pass ['\n'] ('\x7d' :: rest)).consume ['\x7d'] rest =
        input.consume ('\x7b' :: '\n' :: (phrase.line returned ++ ['\n', '\x7d'])) rest := by
      rw [Input.consume_pass, Input.consume_consume]
      simp
    rw [bind_step statements, bind_step (@skipBefore_blank _ ['\n'] ('\x7d' :: rest) rfl rfl rfl),
      bind_step (@punct_here _ rest '\x7d' "\x7d" rfl (by decide) rfl), finish_step, closed]
    refine ⟨_, ?_, rfl⟩
    rw [Node.hasFault, Node.anyFault, faultless]
    rfl
  · have none : many (upTo (depth + 2) .statement) (input.consume ['\x7b'] _) = _ :=
      many_fails (refuses unsound)
    have longest : longestPunctuator? (phrase.line returned ++ '\n' :: '\x7d' :: rest) ≠ some "\x7d" := by
      cases returned with
      | true =>
          rw [longestPunctuator?_none (by simp [Phrase.line_true]; decide)]
          simp
      | false =>
          have start := lead_text phrase isPhrase (Phrase.isPair_of_isStatement isStatement)
          have longest := @Lead.longestPunctuator? _ ('\n' :: '\x7d' :: rest) start
          intro same
          rw [Phrase.line_false] at same
          rw [same] at longest
          exact absurd longest (by simp)
    have starts := @startsToken_line ('\n' :: '\x7d' :: rest) phrase isPhrase isStatement returned
    rw [bind_step none, bind_step (@skipBefore_blank _ ['\n'] _ rfl rfl starts)]
    exact bind_fails (@punct_fails _ [] _ _ rfl rfl starts longest) _

/-! ## The function -/

theorem longestPunctuator?_arrow (rest : List Char) :
    longestPunctuator? ('=' :: '>' :: rest) = some "=>" := by
  have marks : punctuatorsAt '=' = ["===", "=>", "==", "="] := by decide +kernel
  have long : standsAt ('=' :: '>' :: rest) "===" = false := by simp [standsAt, stripStart?]
  have arrow : standsAt ('=' :: '>' :: rest) "=>" = true := by
    cases rest with
    | nil => rfl
    | cons c more => rfl
  rw [longestPunctuator?_cons, marks, List.find?_cons, long, List.find?_cons, arrow]

theorem punct_arrow (split : input.rest = ' ' :: '=' :: '>' :: rest) :
    punct "=>" input = some ((), input.consume [' ', '=', '>'] rest) :=
  @punct_step input [' '] rest "=>" split rfl rfl (longestPunctuator?_arrow rest)

/-- Braces around one statement are not tried as an object, or are not read as one. -/
theorem opensObject_line {returned : Bool} (isPhrase : phrase.isPhrase = true)
    (isStatement : phrase.isStatement = true) (deep : phrase.depth ≤ depth)
    (split : input.rest = '\x7b' :: (['\n'] ++ (phrase.line returned ++ '\n' :: '\x7d' :: rest))) :
    opensObject input = some (false, input) ∨ upTo (depth + 2) .expression input = none := by
  cases returned with
  | false => exact opensObject_or_fails isPhrase isStatement deep rfl split
  | true =>
      rw [Phrase.line_true, List.append_assoc] at split
      refine .inl (looks_false ?_)
      rw [bind_step (skip_token (by rw [split]; rfl)), bind_step (exactly_step split),
        bind_step (@nextWord_step _ ['\n'] _ "return".toList rfl rfl rfl rfl)]
      exact bind_fails (ensure_fails (by decide +kernel)) _

/-- The body of an arrow function with one statement in braces is a block. -/
theorem arrowBody_line {returned : Bool} (isPhrase : phrase.isPhrase = true)
    (isStatement : phrase.isStatement = true) (deep : phrase.depth ≤ depth) {body : List Char}
    (braced : body = '\x7b' :: (['\n'] ++ (phrase.line returned ++ '\n' :: '\x7d' :: rest)))
    (split : input.rest = ' ' :: '=' :: '>' :: ' ' :: body) :
    arrowBody (upTo (depth + 2)) input =
      block (upTo (depth + 2)) ((input.consume [' ', '=', '>'] (' ' :: body)).pass [' '] body) := by
  have starts : startsToken body = true := by
    rw [braced]
    rfl
  have brace : ((input.consume [' ', '=', '>'] (' ' :: body)).pass [' '] body).rest.head? =
      some '\x7b' := by
    rw [Input.rest_pass, braced]
    rfl
  unfold arrowBody
  rw [bind_step (punct_arrow split), bind_step (@skipBefore_blank _ [' '] body rfl rfl starts),
    bind_step peek_step, brace]
  simp only [beq_self_eq_true, if_true]
  rcases @opensObject_line ((input.consume [' ', '=', '>'] (' ' :: body)).pass [' '] body) rest phrase
    depth returned isPhrase isStatement deep braced with notObject | failed
  · rw [bind_step notObject]
    rfl
  · unfold opensObject
    rw [bind_step (looks_step _)]
    cases Option.isSome _ with
    | false => rfl
    | true => exact orElse_fails failed

/-- The reader reads a node of a kind, without a fault below it, up to a rest. -/
def Reaches (reader : Reader Node) (kind : Kind) (input : Input) (rest : List Char) : Prop :=
  ∃ range children text, Node.anyFault children = false ∧
    reader input = some (.mk kind none range children, input.consume text rest)

section Async

variable {self : Recursor} {after : List Char}

theorem async_opened (after : List Char) :
    punct "(" (input.consume "async".toList (' ' :: '(' :: ')' :: after)) =
      some ((), input.consume ("async".toList ++ [' ', '(']) (')' :: after)) := by
  rw [@punct_mark _ [' '] (')' :: after) '(' "(" rfl (by decide) rfl rfl, Input.consume_consume]
  rfl

theorem async_keyword (split : input.rest = "async".toList ++ ' ' :: '(' :: ')' :: after) :
    keyword "async" input =
      some ((), input.consume "async".toList (' ' :: '(' :: ')' :: after)) :=
  @keyword_step input [] (' ' :: '(' :: ')' :: after) _ "async" rfl split rfl rfl rfl

/-- The word `async` with parentheses behind it does not start a function with a name. -/
theorem asyncForms_call (split : input.rest = "async".toList ++ ' ' :: '(' :: ')' :: after) :
    asyncForms self input = asyncCall self input := by
  have noWord : word (input.consume "async".toList (' ' :: '(' :: ')' :: after)) = none :=
    @word_fails _ [' '] ('(' :: ')' :: after) rfl rfl rfl (by simp; decide)
  have notFunction : (do asyncHere; keyword "function" : Reader Unit) input = none := by
    obtain ⟨omitted, answered⟩ :=
      @exists_atOmitted (input.consume "async".toList (' ' :: '(' :: ')' :: after)) false
    unfold asyncHere
    cases omitted with
    | true =>
        refine bind_fails ?_ _
        rw [bind_step (async_keyword split), bind_step answered]
        exact ensure_fails rfl
    | false =>
        have here : (do keyword "async"; ensure (!(← atOmitted false)) : Reader Unit) input =
            some ((), input.consume "async".toList (' ' :: '(' :: ')' :: after)) := by
          rw [bind_step (async_keyword split), bind_step answered]
          exact ensure_step rfl
        rw [bind_step here]
        unfold keyword
        exact bind_fails noWord _
  unfold asyncForms
  rw [bind_step (looks_false notFunction)]
  simp only [Bool.false_eq_true, if_false]
  rw [bind_step (looks_true ((bind_step (async_keyword split) _).trans (async_opened after)))]
  rfl

/-- Behind empty parentheses and an arrow only the body of the function is left. -/
theorem asyncCall_arrow (stops : StopsAtCloser (self .element))
    (split : input.rest = "async".toList ++ ' ' :: '(' :: ')' :: after)
    (arrow : ∃ body, after = ' ' :: '=' :: '>' :: body) :
    ∃ given, given.hasFault = false ∧ asyncCall self input = arrowFrom self input.offset given
      (input.consume ("async".toList ++ [' ', '(', ')']) after) := by
  have named : wordNode .identifier input = some (.mk .identifier none ⟨input.offset, _⟩ [],
      input.consume "async".toList (' ' :: '(' :: ')' :: after)) :=
    @wordNode_step input [] _ "async".toList .identifier split rfl rfl rfl
  have opening : punct "(" ((input.consume "async".toList (' ' :: '(' :: ')' :: after)).pass [' ']
      ('(' :: ')' :: after)) = some ((), input.consume ("async".toList ++ [' ', '(']) (')' :: after)) := by
    rw [@punct_here _ (')' :: after) '(' "(" rfl (by decide) rfl, Input.consume_pass,
      Input.consume_consume]
    rfl
  have items := @commaItems_none (input.consume ("async".toList ++ [' ', '(']) (')' :: after))
    (spread self .element <|> self .element)
    (stopsAtCloser_orElse stops (show ')' ∈ closers by decide) rfl)
    (punct_comma_fails (show ')' ∈ [')', ']', '\x7d'] by simp) rfl)
  have closing : punct ")" (input.consume ("async".toList ++ [' ', '(']) (')' :: after)) =
      some ((), input.consume ("async".toList ++ [' ', '(', ')']) after) := by
    rw [@punct_here _ after ')' ")" rfl (by decide) rfl, Input.consume_consume]
    rfl
  obtain ⟨body, rfl⟩ := arrow
  have arrowed := @punct_arrow (input.consume ("async".toList ++ [' ', '(', ')'])
    (' ' :: '=' :: '>' :: body)) body rfl
  unfold asyncCall
  rw [bind_step named, bind_step (@position_blank _ [' '] ('(' :: ')' :: _) rfl rfl rfl),
    bind_step opening, bind_step items, bind_step closing, bind_step get_step,
    bind_step (atPunct_true arrowed)]
  exact ⟨.mk .formalParameters none _ [], rfl, rfl⟩

/-- An asynchronous arrow function with one statement is read exactly if the phrase of the statement is
sound. -/
theorem asyncForms_line {returned : Bool} (isPhrase : phrase.isPhrase = true)
    (isStatement : phrase.isStatement = true) (deep : phrase.depth ≤ depth) {body : List Char}
    (braced : body = '\x7b' :: (['\n'] ++ (phrase.line returned ++ '\n' :: '\x7d' :: rest)))
    (split : input.rest = "async".toList ++ ' ' :: '(' :: ')' :: ' ' :: '=' :: '>' :: ' ' :: body) :
    (phrase.isSound = true → Reaches (asyncForms (upTo (depth + 2))) .arrowFunction input rest) ∧
      (phrase.isSound = false → asyncForms (upTo (depth + 2)) input = none) := by
  obtain ⟨given, faultless, read⟩ := @asyncCall_arrow input (upTo (depth + 2)) _
    (@element_stops (upTo (depth + 1))) split ⟨_, rfl⟩
  have bodied := @arrowBody_line (input.consume ("async".toList ++ [' ', '(', ')'])
    (' ' :: '=' :: '>' :: ' ' :: body)) rest phrase depth returned isPhrase isStatement deep body braced rfl
  obtain ⟨reads, refuses⟩ := @block_line (((input.consume ("async".toList ++ [' ', '(', ')'])
    (' ' :: '=' :: '>' :: ' ' :: body)).consume [' ', '=', '>'] (' ' :: body)).pass [' '] body) rest
    phrase depth returned isPhrase isStatement deep braced
  rw [← bodied] at reads refuses
  unfold Reaches
  rw [asyncForms_call split, read]
  unfold arrowFrom
  refine ⟨fun isSound => ?_, fun unsound => bind_fails (refuses unsound) _⟩
  obtain ⟨node, sound, blocked⟩ := reads isSound
  rw [bind_step blocked, finish_step, Input.consume_pass, Input.consume_consume, Input.consume_consume]
  refine ⟨_, _, _, ?_, rfl⟩
  rw [Node.anyFault, faultless, Node.anyFault, sound]
  rfl

/-- The same function as an expression. -/
theorem element_async {returned : Bool} (isPhrase : phrase.isPhrase = true)
    (isStatement : phrase.isStatement = true) (deep : phrase.depth ≤ depth) {body : List Char}
    (braced : body = '\x7b' :: (['\n'] ++ (phrase.line returned ++ '\n' :: '\x7d' :: rest)))
    (closing : closes rest = true)
    (split : input.rest = "async".toList ++ ' ' :: '(' :: ')' :: ' ' :: '=' :: '>' :: ' ' :: body) :
    (phrase.isSound = true → Reaches (element (upTo (depth + 2))) .arrowFunction input rest) ∧
      (phrase.isSound = false → element (upTo (depth + 2)) input = none) := by
  have ahead : AtOperand input := by
    refine ⟨by rw [split]; rfl, ⟨'a', _, split, by decide⟩, fun name next read => ?_⟩
    rw [@word_step input [] _ "async".toList split rfl rfl rfl] at read
    cases read
    simp
  have first : primary (upTo (depth + 2)) input = asyncForms (upTo (depth + 2)) input :=
    primary_word split rfl rfl
  obtain ⟨reads, refuses⟩ := asyncForms_line isPhrase isStatement deep braced split
  refine ⟨fun isSound => ?_, fun unsound => element_fails ahead ?_⟩
  · obtain ⟨range, children, text, faultless, read⟩ := reads isSound
    rw [← first] at read
    exact ⟨range, children, text, faultless,
      element_step ahead (assignable_step read rfl .done closing) rfl closing⟩
  · unfold assignable
    exact bind_fails (first.trans (refuses unsound)) _

/-- The same function in parentheses. -/
theorem group_async {returned : Bool} (isPhrase : phrase.isPhrase = true)
    (isStatement : phrase.isStatement = true) (deep : phrase.depth ≤ depth) {body : List Char}
    (braced : body = '\x7b' :: (['\n'] ++ (phrase.line returned ++ '\n' :: '\x7d' :: ')' :: '(' :: rest)))
    (split : input.rest =
      '(' :: ("async".toList ++ ' ' :: '(' :: ')' :: ' ' :: '=' :: '>' :: ' ' :: body)) :
    (phrase.isSound = true →
      Reaches (group (upTo (depth + 3))) .parenthesizedExpression input ('(' :: rest)) ∧
      (phrase.isSound = false → group (upTo (depth + 3)) input = none) := by
  generalize spelled : "async".toList ++ ' ' :: '(' :: ')' :: ' ' :: '=' :: '>' :: ' ' :: body = inner
    at split
  have starts : startsToken inner = true := by
    rw [← spelled]
    rfl
  have noMark : ∀ expected, punct expected (input.consume ['('] inner) = none := by
    intro expected
    refine @punct_fails _ [] inner expected rfl rfl starts ?_
    rw [longestPunctuator?_none (by rw [← spelled]; simp; decide)]
    simp
  have noSpread : spread (upTo (depth + 3)) .element (input.consume ['('] inner) = none := by
    unfold spread
    rw [bind_step (position_token starts)]
    exact bind_fails (noMark "...") _
  obtain ⟨reads, refuses⟩ := @element_async (input.consume ['('] inner) (')' :: '(' :: rest) phrase depth
    returned isPhrase isStatement deep body braced rfl spelled.symm
  unfold Reaches group
  rw [bind_step (position_token (by rw [split]; rfl)),
    bind_step (@punct_here input inner '(' "(" rfl (by decide) split)]
  refine ⟨fun isSound => ?_, fun unsound => ?_⟩
  · obtain ⟨range, children, text, faultless, read⟩ := reads isSound
    rw [Input.consume_consume] at read
    have item : (spread (upTo (depth + 3)) .element <|> upTo (depth + 3) .element)
        (input.consume ['('] inner) = some (.mk .arrowFunction none range children,
          input.consume (['('] ++ text) (')' :: '(' :: rest)) := by
      rw [orElse_fails noSpread]
      exact read
    have items : commaItems (spread (upTo (depth + 3)) .element <|> upTo (depth + 3) .element)
        (input.consume ['('] inner) = some ([some (.mk .arrowFunction none range children)],
          input.consume (['('] ++ text) (')' :: '(' :: rest)) := by
      unfold commaItems
      rw [bind_step (maybe_step item), bind_step (many_fails
        (bind_fails (punct_comma_fails (show ')' ∈ [')', ']', '\x7d'] by simp) rfl) _))]
      rfl
    rw [bind_step items, bind_step (@punct_here _ ('(' :: rest) ')' ")" rfl (by decide) rfl),
      Input.consume_consume, bind_step (atPunct_false
      (@punct_mark_fails _ [] rest '(' "=>" (by decide) (by decide) rfl rfl))]
    refine ⟨_, [.mk .arrowFunction none range children], _, ?_, rfl⟩
    rw [Node.anyFault, Node.hasFault, faultless]
    rfl
  · have noItem : (spread (upTo (depth + 3)) .element <|> upTo (depth + 3) .element)
        (input.consume ['('] inner) = none := by
      rw [orElse_fails noSpread]
      exact refuses unsound
    rw [bind_step (commaItems_none noItem (noMark ","))]
    exact bind_fails (noMark ")") _

end Async

/-- A statement that calls the function is read exactly if the phrase inside is sound. -/
theorem statement_async {returned : Bool} (isPhrase : phrase.isPhrase = true)
    (isStatement : phrase.isStatement = true) (deep : phrase.depth ≤ depth) {body : List Char}
    (braced : body = '\x7b' :: (['\n'] ++ (phrase.line returned ++ '\n' :: '\x7d' :: [')', '(', ')'])))
    (split : input.rest =
      '(' :: ("async".toList ++ ' ' :: '(' :: ')' :: ' ' :: '=' :: '>' :: ' ' :: body)) :
    (phrase.isSound = true →
      Reaches (statement (upTo (depth + 4))) .expressionStatement input []) ∧
      (phrase.isSound = false → statement (upTo (depth + 4)) input = none) := by
  have starts : startsToken input.rest = true := by
    rw [split]
    rfl
  have noWord : word input = none := @word_fails input [] _ rfl rfl starts (by simp [split]; decide)
  have ahead : AtOperand input := by
    refine ⟨starts, ⟨'(', _, split, by decide⟩, fun name next read => ?_⟩
    rw [noWord] at read
    cases read
  have first : primary (upTo (depth + 3)) input = group (upTo (depth + 3)) input := by
    unfold primary
    rw [bind_step (skipBefore_token starts), bind_step peek_step]
    simp only [split, List.head?_cons]
  obtain ⟨reads, refuses⟩ := group_async isPhrase isStatement deep braced split
  unfold Reaches
  rw [statement_plain starts (by simp [split]) noWord]
  refine ⟨fun isSound => ?_, fun unsound => expressionStatement_fails starts ?_⟩
  · obtain ⟨range, children, text, faultless, read⟩ := reads isSound
    rw [← first] at read
    have called := @link_call (upTo (depth + 3)) (input.consume text ['(', ')']) []
      (.mk .parenthesizedExpression none range children) [] (by simp)
      (stopsAtCloser_orElse (@expression_stops (upTo (depth + 2)))) rfl
    rw [Input.consume_consume] at called
    have assigned := assignable_step read rfl (.step called (by simp) .done) rfl
    have expressed := expression_step (element_step ahead assigned rfl rfl) rfl
    have stated := @expressionStatement_step (upTo (depth + 4)) input _ _ starts expressed rfl rfl
    refine ⟨_, _, _, ?_, stated⟩
    simp [Node.anyFault, Node.hasFault, Node.withRole, Kind.isFault, faultless, Phrase.trees]
  · refine expression_fails (element_fails ahead ?_)
    unfold assignable
    exact bind_fails (first.trans (refuses unsound)) _

end PatternScript.Script.Grammar
