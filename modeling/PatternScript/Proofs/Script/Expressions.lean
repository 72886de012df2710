import PatternScript.Proofs.Script.Phrases

/-!
Contract: what the grammar reads where a phrase stands.

A sound phrase is read as its tree, up to a token that can only end an expression. Accesses and calls
are read one by one behind what they belong to, as a run that ends where no other follows.

Owns: what ends an expression, and reading sound phrases.
Does not own: phrases that are not sound.
-/

namespace PatternScript.Script

open Reader

/-! ## What follows an expression -/

/-- The characters that end an item of a list. -/
def closers : List Char := [',', ')', ']', '\x7d']

/-- Nothing behind the expression belongs to it: the program ends, the list goes on or ends, or the
next line ends a block. -/
def closes : List Char → Bool
  | [] => true
  | c :: rest => closers.contains c || (c == '\n' && rest.head? == some '\x7d')

/-- What may follow a part of an expression: its end, a call or an access. -/
def follows : List Char → Bool
  | [] => true
  | c :: rest =>
      closes (c :: rest) || c == '(' || (c == '.' && rest.head?.any isNameStart)

theorem follows_of_closes {rest : List Char} (closing : closes rest = true) :
    follows rest = true := by
  cases rest with
  | nil => rfl
  | cons c rest => simp [follows, closing]

theorem longestPunctuator?_dot {c : Char} (starts : isNameStart c = true) (rest : List Char) :
    longestPunctuator? ('.' :: c :: rest) = some "." := by
  have dots : punctuatorsAt '.' = ["...", "."] := by decide +kernel
  have other : '.' ≠ c := by
    rintro rfl
    exact absurd starts (by decide)
  rw [longestPunctuator?_cons, dots]
  have long : standsAt ('.' :: c :: rest) "..." = false := by
    simp [standsAt, stripStart?, other]
  have short : standsAt ('.' :: c :: rest) "." = true := by
    simp [standsAt, stripStart?]
  rw [List.find?_cons, long, List.find?_cons, short]

/-- The next token behind an expression that is over. -/
theorem exists_token_of_closes {rest : List Char} (closing : closes rest = true) :
    ∃ lead token, rest = lead ++ token ∧ lead.all isSeparator = true ∧ startsToken token = true ∧
      (∀ c ∈ token.head?, c ∈ closers) ∧
      longestPunctuator? token ∈ [none, some ",", some ")", some "]", some "\x7d"] := by
  have marked : ∀ c ∈ closers, c ∈ marks ∧
      some (String.ofList [c]) ∈ [none, some ",", some ")", some "]", some "\x7d"] :=
    forall_mem_of_all (by decide +kernel)
  have atCloser : ∀ c ∈ closers, ∀ more, startsToken (c :: more) = true ∧
      longestPunctuator? (c :: more) ∈ [none, some ",", some ")", some "]", some "\x7d"] := by
    intro c isCloser more
    rw [longestPunctuator?_mark (marked c isCloser).1]
    exact ⟨startsToken_mark (marked c isCloser).1, (marked c isCloser).2⟩
  cases rest with
  | nil =>
      refine ⟨[], [], rfl, rfl, rfl, by simp, ?_⟩
      rw [longestPunctuator?_none (by simp)]
      exact List.mem_cons_self
  | cons c rest =>
      simp only [closes, Bool.or_eq_true, Bool.and_eq_true, beq_iff_eq, List.contains_iff_mem]
        at closing
      rcases closing with isCloser | ⟨rfl, brace⟩
      · exact ⟨[], c :: rest, rfl, rfl, (atCloser c isCloser rest).1, by simpa using isCloser,
          (atCloser c isCloser rest).2⟩
      · obtain ⟨more, rfl⟩ : ∃ more, rest = '\x7d' :: more := by
          cases rest with
          | nil => cases brace
          | cons d more => exact ⟨more, by simpa using brace⟩
        exact ⟨['\n'], '\x7d' :: more, rfl, rfl, (atCloser _ (by decide) more).1, by simp [closers],
          (atCloser _ (by decide) more).2⟩

/-- The next token behind a part of an expression. -/
theorem exists_token_of_follows {rest : List Char} (following : follows rest = true) :
    ∃ lead token, rest = lead ++ token ∧ lead.all isSeparator = true ∧ startsToken token = true ∧
      (∀ c ∈ token.head?, c ∈ '(' :: '.' :: closers) ∧
      longestPunctuator? token ∈
        [some "(", some ".", none, some ",", some ")", some "]", some "\x7d"] := by
  cases rest with
  | nil =>
      refine ⟨[], [], rfl, rfl, rfl, by simp, ?_⟩
      rw [longestPunctuator?_none (by simp)]
      simp
  | cons c rest =>
      simp only [follows, Bool.or_eq_true, Bool.and_eq_true, beq_iff_eq] at following
      rcases following with (closing | rfl) | ⟨rfl, property⟩
      · obtain ⟨lead, token, split, blank, starts, isCloser, longest⟩ :=
          exists_token_of_closes closing
        exact ⟨lead, token, split, blank, starts, fun d isHead => by simp [isCloser d isHead],
          List.mem_cons_of_mem _ (List.mem_cons_of_mem _ longest)⟩
      · refine ⟨[], '(' :: rest, rfl, rfl, rfl, by simp, ?_⟩
        rw [longestPunctuator?_mark (by decide)]
        exact List.mem_cons_self
      · obtain ⟨d, more, rfl, starts⟩ : ∃ d more, rest = d :: more ∧ isNameStart d = true := by
          cases rest with
          | nil => cases property
          | cons d more => exact ⟨d, more, rfl, property⟩
        refine ⟨[], '.' :: d :: more, rfl, rfl, rfl, by simp, ?_⟩
        rw [longestPunctuator?_dot starts]
        exact List.mem_cons_of_mem _ List.mem_cons_self

section Follow

variable {input : Input}

theorem punct_fails_of_follows {expected : String} (following : follows input.rest = true)
    (other : some expected ∉
      [some "(", some ".", none, some ",", some ")", some "]", some "\x7d"]) :
    punct expected input = none := by
  obtain ⟨lead, token, split, blank, starts, _, longest⟩ := exists_token_of_follows following
  exact punct_fails split blank starts fun same => other (same ▸ longest)

theorem punct_fails_of_closes {expected : String} (closing : closes input.rest = true)
    (other : some expected ∉ [none, some ",", some ")", some "]", some "\x7d"]) :
    punct expected input = none := by
  obtain ⟨lead, token, split, blank, starts, _, longest⟩ := exists_token_of_closes closing
  exact punct_fails split blank starts fun same => other (same ▸ longest)

theorem exists_position_of_closes (closing : closes input.rest = true) :
    ∃ start next, position input = some (start, next) ∧ closes next.rest = true := by
  obtain ⟨lead, token, split, blank, starts, head, _⟩ := exists_token_of_closes closing
  refine ⟨_, _, position_blank split blank starts, ?_⟩
  cases token with
  | nil => rfl
  | cons c more => simp [closes, head c rfl]

theorem word_fails_of_follows (following : follows input.rest = true) : word input = none := by
  have noName : ∀ c ∈ '(' :: '.' :: closers, isNameStart c = false ∧ c ≠ '\\' :=
    forall_mem_of_all (by decide)
  obtain ⟨lead, token, split, blank, starts, head, _⟩ := exists_token_of_follows following
  exact word_fails split blank starts fun c isHead => noName c (head c isHead)

theorem endsName_of_follows {rest : List Char} (following : follows rest = true) :
    endsName rest = true := by
  cases rest with
  | nil => rfl
  | cons c rest =>
      have checked : ∀ c ∈ '(' :: '.' :: '\n' :: closers, endsName [c] = true :=
        forall_mem_of_all (by decide)
      refine checked c ?_
      simp only [follows, closes, Bool.or_eq_true, Bool.and_eq_true, beq_iff_eq,
        List.contains_iff_mem] at following
      rcases following with ((isCloser | ⟨rfl, _⟩) | rfl) | ⟨rfl, _⟩
      · simp [isCloser]
      · simp
      · simp
      · simp

end Follow

namespace Grammar

variable {self : Recursor} {input next : Input}

/-! ## Where an expression is over -/

theorem template_fails (following : follows input.rest = true) : template self input = none := by
  have noQuote : '`' ∉ '(' :: '.' :: closers := by decide
  obtain ⟨lead, token, split, blank, starts, head, _⟩ := exists_token_of_follows following
  unfold template
  rw [bind_step (position_blank split blank starts)]
  exact bind_fails (exactly_fails fun isHead => noQuote (head '`' isHead)) _

theorem access_fails {object : Node} (following : follows input.rest = true)
    (noDot : punct "." input = none) : access self object input = none := by
  unfold access
  rw [orElse_fails (bind_fails noDot _), orElse_fails, orElse_fails]
  · exact bind_fails (punct_fails_of_follows following (by simp)) _
  · unfold templateCallOf
    cases isChainBase object with
    | false => exact bind_fails (ensure_fails rfl) _
    | true =>
        rw [bind_step (ensure_step rfl)]
        exact bind_fails (template_fails following) _
  · unfold indexOf
    exact bind_fails (punct_fails_of_follows following (by simp)) _

theorem argumentList_fails (closing : closes input.rest = true) : argumentList self input = none := by
  obtain ⟨start, next, positioned, closing⟩ := exists_position_of_closes closing
  unfold argumentList
  rw [bind_step positioned]
  exact bind_fails (punct_fails_of_closes closing (by simp)) _

/-- The operator behind an expression that is over is one of few. -/
theorem mem_of_punctuator {found : String} (closing : closes input.rest = true)
    (read : punctuator input = some (found, next)) : found ∈ [",", ")", "]", "\x7d"] := by
  obtain ⟨lead, token, split, blank, starts, _, longest⟩ := exists_token_of_closes closing
  rw [longestPunctuator?_of_punctuator split blank starts read] at longest
  simpa using longest

theorem exists_atOmitted (commentEnds : Bool) :
    ∃ omitted, atOmitted commentEnds input = some (omitted, input) :=
  ⟨_, looks_step _⟩

theorem postfixOf_fails {operand : Node}
    (other : ∀ found next, punctuator input = some (found, next) → found ∉ ["++", "--"]) :
    postfixOf operand input = none := by
  obtain ⟨omitted, answered⟩ := @exists_atOmitted input false
  unfold postfixOf
  rw [bind_step answered]
  cases omitted with
  | true => exact bind_fails (ensure_fails Bool.not_true) _
  | false =>
      rw [bind_step (ensure_step Bool.not_false)]
      cases read : punctuator input with
      | none => exact bind_fails read _
      | some answer =>
          rw [bind_step read]
          exact bind_fails (ensure_fails (by simpa using other _ _ read)) _

theorem link_fails {base : Node} (closing : closes input.rest = true) :
    link self base input = none := by
  have other : ∀ found ∈ [",", ")", "]", "\x7d"], found ∉ ["++", "--"] := by simp
  unfold link
  rw [orElse_fails (access_fails (follows_of_closes closing)
    (punct_fails_of_closes closing (by simp))), orElse_fails]
  · exact postfixOf_fails fun found next read => other found (mem_of_punctuator closing read)
  · unfold callOf
    exact bind_fails (argumentList_fails closing) _

theorem links_step {first node : Node} (run : Run (link self) first input node next)
    (closing : closes next.rest = true) : links self first input = some (node, next) := by
  unfold links
  rw [bind_step (run.iterate_eq (link_fails closing)),
    bind_step (atPunct_false (punct_fails_of_closes closing (by simp))),
    bind_step (atPunct_false (punct_fails_of_closes closing (by simp))),
    bind_step (ensure_step (by decide))]
  rfl

theorem atAssignment_of_closes (closing : closes input.rest = true) :
    atAssignment input = some (false, input) := by
  have other : ∀ found ∈ [",", ")", "]", "\x7d"],
      (found == "=" || augmentedOperators.contains found) = false := by
    decide +kernel
  refine looks_false ?_
  cases read : punctuator input with
  | none => exact bind_fails read _
  | some answer =>
      rw [bind_step read]
      exact ensure_fails (other _ (mem_of_punctuator closing read))

theorem binaryTail_fails {level : Nat} {left : Node} (closing : closes input.rest = true) :
    binaryTail self level left input = none := by
  have other : ∀ found ∈ [",", ")", "]", "\x7d"], bindingLevel? found = none := by decide +kernel
  unfold binaryTail
  cases read : punctuator input with
  | none =>
      refine bind_fails ?_ _
      rw [orElse_fails read]
      exact word_fails_of_follows (follows_of_closes closing)
  | some answer =>
      rw [bind_step (orElse_step read), other _ (mem_of_punctuator closing read)]
      rfl

/-- An expression is over behind an operand that a token follows which ends it. -/
theorem assignable_step {first node : Node} {middle : Input}
    (read : primary self input = some (first, middle)) (plain : first.isPending = false)
    (run : Run (link self) first middle node next) (closing : closes next.rest = true) :
    assignable self input = some (node, next) := by
  unfold assignable
  rw [bind_step read, plain]
  simp only [Bool.false_eq_true, if_false]
  rw [bind_step (links_step run closing), bind_step (atAssignment_of_closes closing)]
  rfl

/-- An operand that neither an operator nor a word with a meaning of its own starts is next. -/
structure AtOperand (input : Input) : Prop where
  starts : startsToken input.rest = true
  noOperator : ∃ c rest, input.rest = c :: rest ∧ c ∉ ['+', '-', '!', '~']
  noWord : ∀ name next, word input = some (name, next) →
    name ∉ ["typeof", "void", "delete", "await", "yield"]

theorem wordOperand_step {name : String} (starts : startsToken input.rest = true)
    (other : name ∉ ["typeof", "void", "delete", "await", "yield"]) :
    wordOperand self name input = assignable self input := by
  simp only [List.mem_cons, List.not_mem_nil, or_false, not_or] at other
  obtain ⟨notTypeof, notVoid, notDelete, notAwait, notYield⟩ := other
  unfold wordOperand
  rw [bind_step (position_token starts)]
  simp only

theorem operand_step (ahead : AtOperand input) : operand self input = assignable self input := by
  obtain ⟨c, rest, split, other⟩ := ahead.noOperator
  simp only [List.mem_cons, List.not_mem_nil, or_false, not_or] at other
  obtain ⟨notPlus, notMinus, notBang, notTilde⟩ := other
  unfold operand
  rw [bind_step (skipBefore_token ahead.starts), bind_step peek_step]
  simp only [split, List.head?_cons, ↓Char.isValue, Option.some.injEq, notPlus, imp_self, notMinus,
    notBang, notTilde]
  cases read : word input with
  | none => rw [bind_step (nextWord_none read)]
  | some answer =>
      have next : nextWord input = some (some answer.1, input) := by simp [nextWord, read]
      rw [bind_step next]
      exact wordOperand_step ahead.starts (ahead.noWord answer.1 answer.2 read)

theorem element_step {node : Node} (ahead : AtOperand input)
    (read : assignable self input = some (node, next)) (plain : node.isPending = false)
    (closing : closes next.rest = true) : element self input = some (node, next) := by
  have operands : binary self 1 input = some (node, next) := by
    unfold binary
    rw [bind_step (by rw [operand_step ahead, read]), plain]
    simp only [Bool.false_eq_true, if_false]
    exact iterate_fails (binaryTail_fails closing)
  unfold element
  rw [bind_step operands, plain]
  simp only [Bool.false_eq_true, if_false]
  rw [orElse_fails]
  · rfl
  · unfold choiceTail
    exact bind_fails (punct_fails_of_closes closing (by simp)) _

theorem element_fails (ahead : AtOperand input) (failed : assignable self input = none) :
    element self input = none := by
  unfold element
  refine bind_fails ?_ _
  unfold binary
  exact bind_fails (by rw [operand_step ahead, failed]) _

theorem expression_step {node : Node} (read : element self input = some (node, next))
    (plain : node.isPending = false) : expression self input = some (node, next) := by
  unfold expression
  rw [bind_step read, bind_step (ensure_step (by rw [plain]; rfl))]
  rfl

theorem expression_fails (failed : element self input = none) : expression self input = none := by
  unfold expression
  exact bind_fails failed _

/-! ## Primary expressions -/

/-- The characters that alone say what a primary expression is. -/
def primaryMarks : List Char :=
  ['(', '[', '\x7b', '"', '\'', '`', '/', '<', '@', '#', '.']

section Primary

variable {rest : List Char}

theorem primary_quote (split : input.rest = '"' :: rest) : primary self input = string input := by
  unfold primary
  rw [bind_step (skipBefore_token (by rw [split]; rfl)), bind_step peek_step]
  simp only [split, List.head?_cons]

theorem primary_bracket (split : input.rest = '[' :: rest) :
    primary self input = arrayLiteral self input := by
  unfold primary
  rw [bind_step (skipBefore_token (by rw [split]; rfl)), bind_step peek_step]
  simp only [split, List.head?_cons]

theorem primary_brace (split : input.rest = '\x7b' :: rest) :
    primary self input = objectLiteral self input := by
  unfold primary
  rw [bind_step (skipBefore_token (by rw [split]; rfl)), bind_step peek_step]
  simp only [split, List.head?_cons]

theorem primary_digit {c : Char} (split : input.rest = c :: rest) (isDigit : c.isDigit = true) :
    primary self input = number input := by
  have starts : startsToken (c :: rest) = true :=
    @forall_isDigit (fun c => startsToken [c] = true) _ (by decide) c isDigit
  have other := @forall_isDigit (· ∉ primaryMarks) _ (by decide) c isDigit
  simp only [primaryMarks, List.mem_cons, List.not_mem_nil, or_false, not_or] at other
  obtain ⟨_, _, _, _, _, _, _, _, _, _, _⟩ := other
  unfold primary
  rw [bind_step (skipBefore_token (by rw [split]; exact starts)), bind_step peek_step]
  simp [*]

theorem primary_word {name : List Char} (split : input.rest = name ++ rest)
    (isName : isWord name = true) (ends : endsName rest = true) :
    primary self input = wordExpression self (String.ofList name) input := by
  have next := @nextWord_step input [] rest name split rfl isName ends
  cases name with
  | nil => cases isName
  | cons c more =>
      simp only [isWord, isNameStart, Bool.and_eq_true, Bool.not_eq_true'] at isName
      obtain ⟨⟨isPart, notDigit⟩, _⟩ := isName
      have marked : ∀ d ∈ primaryMarks, isPunctuation d = true := forall_mem_of_all (by decide)
      have other : c ∉ primaryMarks := fun isMark =>
        absurd (marked c isMark) (by simp [isPunctuation_of_isNamePart isPart])
      simp only [primaryMarks, List.mem_cons, List.not_mem_nil, or_false, not_or] at other
      obtain ⟨_, _, _, _, _, _, _, _, _, _, _⟩ := other
      unfold primary
      rw [bind_step (skipBefore_token (by rw [split]; exact startsToken_of_isNamePart isPart)),
        bind_step peek_step]
      generalize String.ofList (c :: more) = spelled at next ⊢
      simp only [split, List.cons_append, List.head?_cons, notDigit]
      simp [*]
      rw [bind_step next]

theorem not_mem_of_free {name : List Char} (free : Phrase.isFree name = true) {names : List String}
    (known : ∀ other ∈ names, other ∈ Phrase.reserved) : String.ofList name ∉ names := by
  simp only [Phrase.isFree, Bool.and_eq_true, Bool.not_eq_true'] at free
  intro member
  exact absurd (List.contains_iff_mem.mpr (known _ member)) (Bool.not_eq_true _ ▸ free.2)

theorem wordExpression_free {name : List Char} (free : Phrase.isFree name = true) :
    wordExpression self (String.ofList name) = nameOrArrow self := by
  have leaf := not_mem_of_free free
    (show ∀ other ∈ ["this", "super", "true", "false", "null", "undefined", "function", "class",
      "new", "import", "async"], other ∈ Phrase.reserved by decide +kernel)
  have keyword : String.ofList name ∉ expressionKeywords :=
    not_mem_of_free free (by decide +kernel)
  generalize String.ofList name = spelled at leaf keyword ⊢
  simp only [List.mem_cons, List.not_mem_nil, or_false, not_or] at leaf
  obtain ⟨_, _, _, _, _, _, _, _, _, _, _⟩ := leaf
  simp [wordExpression, leafKind?, *]

theorem nameOrArrow_step {name : List Char} (split : input.rest = name ++ rest)
    (isName : isWord name = true) (following : follows rest = true) :
    nameOrArrow self input =
      some (Phrase.tree input.offset (.name name), input.consume name rest) := by
  unfold nameOrArrow
  rw [bind_step (@wordNode_step input [] rest name .identifier split rfl isName
    (endsName_of_follows following)), bind_step (atPunct_false
    (punct_fails_of_follows following (by simp)))]
  simp [pure_step, Phrase.tree, Phrase.bytes, Phrase.text]

end Primary

/-! ## The start of a phrase -/

/-- How the text of an expression starts: with a name that a call or an access may follow, with a
mark, or with a digit. -/
inductive Lead (text : List Char) : Prop where
  | word {name after : List Char} (free : Phrase.isFree name = true) (spelled : text = name ++ after)
      (following : ∀ rest, follows rest = true → follows (after ++ rest) = true)
  | mark {c : Char} {after : List Char} (isMark : c ∈ ['"', '[', '\x7b'])
      (spelled : text = c :: after)
  | digit {c : Char} {after : List Char} (isDigit : c.isDigit = true) (spelled : text = c :: after)

/-- More text behind an expression does not change how it starts. -/
theorem Lead.append {text more : List Char} (lead : Lead text)
    (following : ∀ rest, follows rest = true → follows (more ++ rest) = true) :
    Lead (text ++ more) := by
  cases lead with
  | word free spelled onward =>
      refine .word free (by rw [spelled, List.append_assoc]) fun rest follow => ?_
      rw [List.append_assoc]
      exact onward _ (following rest follow)
  | mark isMark spelled => exact .mark isMark (by rw [spelled, List.cons_append])
  | digit isDigit spelled => exact .digit isDigit (by rw [spelled, List.cons_append])

theorem lead_text (phrase : Phrase) :
    phrase.isPhrase = true → phrase.isPair = false → Lead phrase.text := by
  induction phrase using Phrase.induction with
  | quoted text => exact fun _ _ => .mark (by simp) rfl
  | number value =>
      obtain ⟨c, more, digits, isDigit, _⟩ := Phrase.exists_toDigits value
      exact fun _ _ => .digit isDigit digits
  | name word =>
      intro isPhrase _
      exact .word isPhrase (List.append_nil _).symm fun rest follow => follow
  | access base property inductionHypothesis =>
      intro isPhrase _
      simp only [Phrase.isPhrase, Bool.and_eq_true] at isPhrase
      obtain ⟨⟨isBase, canHave⟩, isProperty⟩ := isPhrase
      refine (inductionHypothesis isBase (Phrase.isPair_of_isBase canHave)).append fun rest _ => ?_
      cases property with
      | nil => cases isProperty
      | cons c more =>
          simp only [isWord, Bool.and_eq_true] at isProperty
          simp [follows, isProperty.1]
  | call function given inductionHypothesis _ =>
      intro isPhrase _
      simp only [Phrase.isPhrase, Bool.and_eq_true] at isPhrase
      obtain ⟨⟨isFunction, canHave⟩, _⟩ := isPhrase
      refine (inductionHypothesis isFunction (Phrase.isPair_of_isBase canHave)).append fun rest _ => ?_
      simp [follows]
  | array items => exact fun _ _ => .mark (by simp) rfl
  | object members => exact fun _ _ => .mark (by simp) rfl
  | pair key value => exact fun _ isPair => absurd isPair (by simp [Phrase.isPair])

section Start

variable {text rest : List Char}

theorem Lead.startsToken (lead : Lead text) : startsToken (text ++ rest) = true := by
  cases lead with
  | word free spelled _ =>
      simp only [Phrase.isFree, Bool.and_eq_true] at free
      rw [spelled, List.append_assoc]
      exact startsToken_of_isWord free.1
  | @mark c after isMark spelled =>
      have checked : ∀ c ∈ ['"', '[', '\x7b'], Reader.startsToken [c] = true :=
        forall_mem_of_all (by decide)
      rw [spelled]
      exact checked c isMark
  | @digit c after isDigit spelled =>
      rw [spelled]
      exact @forall_isDigit (fun c => Reader.startsToken [c] = true) _ (by decide) c isDigit

/-- No punctuator but an opening one starts an expression. -/
theorem Lead.longestPunctuator? (lead : Lead text) :
    Reader.longestPunctuator? (text ++ rest) ∈ [none, some "[", some "\x7b"] := by
  cases lead with
  | @word name after free spelled _ =>
      simp only [Phrase.isFree, Bool.and_eq_true] at free
      rw [spelled, longestPunctuator?_none]
      · simp
      · cases name with
        | nil => cases free.1
        | cons c more =>
            simp only [isWord, isNameStart, Bool.and_eq_true] at free
            simpa using .inl (isPunctuation_of_isNamePart free.1.1.1).2
  | @mark c after isMark spelled =>
      simp only [List.mem_cons, List.not_mem_nil, or_false] at isMark
      rcases isMark with rfl | rfl | rfl
      · rw [spelled, longestPunctuator?_none (by simp)]
        simp
      · rw [spelled, List.cons_append, longestPunctuator?_mark (by decide)]
        decide +kernel
      · rw [spelled, List.cons_append, longestPunctuator?_mark (by decide)]
        decide +kernel
  | @digit c after isDigit spelled =>
      have notMark := @forall_isDigit (fun c => isPunctuation c = false) _ (by decide) c isDigit
      rw [spelled, longestPunctuator?_none (by simp [notMark])]
      simp

theorem Lead.atOperand {input : Input} (lead : Lead text) (split : input.rest = text ++ rest)
    (following : follows rest = true) : AtOperand input := by
  have starts : Reader.startsToken input.rest = true := by
    rw [split]
    exact lead.startsToken
  have operators : ∀ c ∈ ['+', '-', '!', '~'], isPunctuation c = true := forall_mem_of_all (by decide)
  cases lead with
  | @word name after free spelled onward =>
      have isName : isWord name = true := by
        simp only [Phrase.isFree, Bool.and_eq_true] at free
        exact free.1
      have read := @word_step input [] (after ++ rest) name (by simp [split, spelled]) rfl isName
        (endsName_of_follows (onward rest following))
      refine ⟨starts, ?_, fun other next isRead => ?_⟩
      · cases name with
        | nil => cases isName
        | cons c more =>
            refine ⟨c, more ++ (after ++ rest), by simp [split, spelled], fun isOperator => ?_⟩
            simp only [isWord, isNameStart, Bool.and_eq_true] at isName
            exact absurd (operators c isOperator) (by simp [isPunctuation_of_isNamePart isName.1.1])
      · rw [read] at isRead
        cases isRead
        exact not_mem_of_free free (by decide +kernel)
  | @mark c after isMark spelled =>
      have checked : ∀ c ∈ ['"', '[', '\x7b'], c ∉ ['+', '-', '!', '~'] ∧ isNameStart c = false ∧
          c ≠ '\\' := forall_mem_of_all (by decide)
      obtain ⟨notOperator, notName⟩ := checked c isMark
      rw [spelled, List.cons_append] at split
      refine ⟨starts, ⟨c, _, split, notOperator⟩, fun other next isRead => ?_⟩
      rw [@word_fails input [] _ rfl rfl starts (by simpa [split] using notName)] at isRead
      cases isRead
  | @digit c after isDigit spelled =>
      obtain ⟨notOperator, notName⟩ := @forall_isDigit
        (fun c => c ∉ ['+', '-', '!', '~'] ∧ isNameStart c = false ∧ c ≠ '\\') _ (by decide) c isDigit
      rw [spelled, List.cons_append] at split
      refine ⟨starts, ⟨c, _, split, notOperator⟩, fun other next isRead => ?_⟩
      rw [@word_fails input [] _ rfl rfl starts (by simpa [split] using notName)] at isRead
      cases isRead

end Start

/-! ## Lists -/

theorem element_blank {lead rest : List Char} (split : input.rest = lead ++ rest)
    (blank : lead.all isSeparator = true) (starts : startsToken rest = true) :
    element self input = element self (input.pass lead rest) := by
  have same : operand self input = operand self (input.pass lead rest) := by
    unfold operand
    rw [bind_step (skipBefore_blank split blank starts), bind_step (skipBefore_token starts)]
  unfold element binary
  exact bind_congr (bind_congr same _) _

/-- The reader reads a phrase as its tree, with blanks before it, where the item of a list may
stand. -/
def ReadsAs (reader : Reader Node) (phrase : Phrase) : Prop :=
  ∀ ⦃input : Input⦄ ⦃lead rest : List Char⦄, lead.all isSeparator = true →
    input.rest = lead ++ (phrase.text ++ rest) → closes rest = true →
      reader input = some (phrase.tree (input.offset + Text.byteLength lead),
        input.consume (lead ++ phrase.text) rest)

/-- The reader reads nothing where a list ends. -/
def StopsAtCloser (reader : Reader Node) : Prop :=
  ∀ ⦃input : Input⦄ ⦃c : Char⦄ ⦃rest : List Char⦄, c ∈ closers → input.rest = c :: rest →
    reader input = none

section Lists

variable {item : Reader Node} {rest : List Char} {c : Char}

theorem punct_comma_fails (isEnd : c ∈ [')', ']', '\x7d']) (split : input.rest = c :: rest) :
    punct "," input = none := by
  have checked : ∀ c ∈ [')', ']', '\x7d'], c ∈ marks ∧ ",".toList ≠ [c] :=
    forall_mem_of_all (by decide)
  exact @punct_mark_fails input [] rest c "," (checked c isEnd).2 (checked c isEnd).1 split rfl

theorem closes_moreText (isEnd : c ∈ [')', ']', '\x7d']) (items : List Phrase) :
    closes (Phrase.moreText items ++ c :: rest) = true := by
  cases items with
  | nil =>
      have checked : ∀ c ∈ [')', ']', '\x7d'], closers.contains c = true :=
        forall_mem_of_all (by decide)
      rw [Phrase.moreText, List.nil_append, closes, checked c isEnd, Bool.true_or]
  | cons phrase more =>
      rw [Phrase.moreText]
      rfl

/-- The items behind the first are read with the commas before them. -/
theorem repeats_moreText {items : List Phrase} (each : ∀ phrase ∈ items, ReadsAs item phrase)
    (isEnd : c ∈ [')', ']', '\x7d']) (split : input.rest = Phrase.moreText items ++ c :: rest)
    (behind : input.stop = input.offset) :
    Repeats (do punct ","; maybe item) input ((Phrase.moreTrees input.offset items).map some)
      (input.consume (Phrase.moreText items) (c :: rest)) := by
  induction items generalizing input with
  | nil =>
      rw [Phrase.moreText, List.nil_append] at split
      rw [Phrase.moreText, ← split, Input.consume_nil behind]
      exact .nil
  | cons phrase more inductionHypothesis =>
      rw [List.forall_mem_cons] at each
      rw [Phrase.moreText] at split
      simp only [List.cons_append, List.append_assoc] at split
      have comma := @punct_here input _ ',' "," rfl (by decide) split
      have read := @each.1
        (input.consume [','] (' ' :: (phrase.text ++ (Phrase.moreText more ++ c :: rest)))) [' ']
        (Phrase.moreText more ++ c :: rest) rfl rfl (closes_moreText isEnd more)
      rw [Input.consume_consume] at read
      have onward := @inductionHypothesis
        (input.consume (',' :: ' ' :: phrase.text) (Phrase.moreText more ++ c :: rest)) each.2 rfl rfl
      rw [Input.consume_consume] at onward
      have size : Text.byteLength (',' :: ' ' :: phrase.text) = 2 + phrase.bytes := by
        rw [Text.byteLength_cons, Text.byteLength_cons, ← Nat.add_assoc]
        rfl
      rw [Input.offset_consume, size, ← Nat.add_assoc] at onward
      rw [Phrase.moreText, Phrase.moreTrees, List.map_cons]
      refine .cons ?_ ?_ onward
      · rw [bind_step comma]
        exact maybe_step read
      · rw [split]
        simp only [Input.rest_consume, List.length_cons, List.length_append]
        omega

/-- Where neither an item nor a comma is next, one item is left out. -/
theorem commaItems_none (failed : item input = none) (noComma : punct "," input = none) :
    commaItems item input = some ([none], input) := by
  unfold commaItems
  rw [bind_step (maybe_fails failed), bind_step (many_fails (bind_fails noComma _))]
  rfl

/-- The items of a list are read as their trees, up to its end. -/
theorem exists_commaItems {items : List Phrase} (each : ∀ phrase ∈ items, ReadsAs item phrase)
    (stops : StopsAtCloser item) (isEnd : c ∈ [')', ']', '\x7d'])
    (split : input.rest = Phrase.listText items ++ c :: rest) (behind : input.stop = input.offset) :
    ∃ values, commaItems item input =
        some (values, input.consume (Phrase.listText items) (c :: rest)) ∧
      values.filterMap id = Phrase.trees input.offset items := by
  have checked : ∀ c ∈ [')', ']', '\x7d'], c ∈ closers := forall_mem_of_all (by decide)
  cases items with
  | nil =>
      rw [Phrase.listText, List.nil_append] at split
      refine ⟨[none], ?_, rfl⟩
      rw [commaItems_none (stops (checked c isEnd) split) (punct_comma_fails isEnd split),
        Phrase.listText, ← split, Input.consume_nil behind]
  | cons first more =>
      rw [List.forall_mem_cons] at each
      rw [Phrase.listText, List.append_assoc] at split
      have read : item input = some (first.tree input.offset,
          input.consume first.text (Phrase.moreText more ++ c :: rest)) :=
        @each.1 input [] (Phrase.moreText more ++ c :: rest) rfl split (closes_moreText isEnd more)
      have onward := @repeats_moreText (input.consume first.text (Phrase.moreText more ++ c :: rest))
        item rest c more each.2 isEnd rfl rfl
      rw [Input.consume_consume] at onward
      refine ⟨some (first.tree input.offset) ::
        (Phrase.moreTrees (input.offset + first.bytes) more).map some, ?_, ?_⟩
      · unfold commaItems
        rw [bind_step (maybe_step read),
          bind_step (onward.many_eq (bind_fails (punct_comma_fails isEnd rfl) _))]
        rfl
      · simp [Phrase.trees]

/-- A list between two marks. -/
def delimitedList (kind : Kind) (opening closing : String) (item : Reader Node) : Reader Node := do
  let start ← position
  punct opening
  let items ← commaItems item
  punct closing
  finish kind start (items.filterMap id)

theorem argumentList_eq (self : Recursor) : argumentList self =
    delimitedList .arguments "(" ")" (spread self .expression <|> self .expression) := rfl

theorem arrayLiteral_eq (self : Recursor) : arrayLiteral self =
    delimitedList .array "[" "]" (spread self .element <|> self .element) := rfl

theorem objectLiteral_eq (self : Recursor) : objectLiteral self =
    delimitedList .object "\x7b" "\x7d" (spread self .element <|> objectMember self) := rfl

theorem delimitedList_step {kind : Kind} {opening closing : String} {o : Char}
    {items : List Phrase} (opens : opening.toList = [o]) (ends : closing.toList = [c])
    (isMark : o ∈ marks) (isEnd : c ∈ [')', ']', '\x7d'])
    (each : ∀ phrase ∈ items, ReadsAs item phrase) (stops : StopsAtCloser item)
    (split : input.rest = o :: (Phrase.listText items ++ c :: rest)) :
    delimitedList kind opening closing item input =
      some (.mk kind none ⟨input.offset,
          input.offset + Text.byteLength (o :: (Phrase.listText items ++ [c]))⟩
        (Phrase.trees (input.offset + 1) items),
        input.consume (o :: (Phrase.listText items ++ [c])) rest) := by
  have sized : ∀ o ∈ marks, Text.byteLength [o] = 1 := forall_mem_of_all (by decide)
  have marked : ∀ c ∈ [')', ']', '\x7d'], c ∈ marks := forall_mem_of_all (by decide)
  obtain ⟨values, read, trees⟩ := @exists_commaItems
    (input.consume [o] (Phrase.listText items ++ c :: rest)) item rest c items each stops isEnd rfl rfl
  rw [Input.consume_consume] at read
  rw [Input.offset_consume, sized o isMark] at trees
  unfold delimitedList
  rw [bind_step (position_token (by rw [split]; exact startsToken_mark isMark)),
    bind_step (punct_here opens isMark split), bind_step read,
    bind_step (punct_here ends (marked c isEnd) rfl), finish_step, Input.consume_consume, trees]
  simp

end Lists

/-! ## Links -/

section Links

variable {rest : List Char}

theorem memberOf_step {object : Node} {property : List Char} (split : input.rest = property ++ rest)
    (isProperty : isWord property = true) (following : follows rest = true) :
    memberOf object input =
      some (.mk .memberExpression none ⟨object.start, input.offset + Text.byteLength property⟩
        [object, .mk .propertyIdentifier (some .property)
          ⟨input.offset, input.offset + Text.byteLength property⟩ []],
        input.consume property rest) := by
  have notPrivate : privateName input = none := by
    have starts : startsToken input.rest = true := by
      rw [split]
      exact startsToken_of_isWord isProperty
    unfold privateName
    rw [bind_step (position_token starts)]
    refine bind_fails (exactly_fails fun isHead => ?_) _
    cases property with
    | nil => cases isProperty
    | cons c more =>
        rw [split] at isHead
        cases isHead
        exact absurd isProperty (by simp [isWord, show isNameStart '#' = false by decide])
  unfold memberOf
  rw [bind_step (by
    rw [orElse_fails notPrivate]
    exact @wordNode_step input [] rest property .propertyIdentifier split rfl isProperty
      (endsName_of_follows following))]
  simp [finish_step, Node.withRole]

theorem link_access {base : Node} {property : List Char}
    (split : input.rest = '.' :: (property ++ rest)) (isProperty : isWord property = true)
    (following : follows rest = true) :
    link self base input =
      some (.mk .memberExpression none
        ⟨base.start, input.offset + Text.byteLength ('.' :: property)⟩
        [base, .mk .propertyIdentifier (some .property)
          ⟨input.offset + 1, input.offset + Text.byteLength ('.' :: property)⟩ []],
        input.consume ('.' :: property) rest) := by
  have dot : punct "." input = some ((), input.consume ['.'] (property ++ rest)) := by
    have longest : longestPunctuator? ('.' :: (property ++ rest)) = some "." := by
      cases property with
      | nil => cases isProperty
      | cons c more =>
          simp only [isWord, Bool.and_eq_true] at isProperty
          exact longestPunctuator?_dot isProperty.1 _
    exact @punct_step input [] (property ++ rest) "." split rfl rfl longest
  have size : Text.byteLength ('.' :: property) = 1 + Text.byteLength property :=
    Text.byteLength_cons ..
  have read := @memberOf_step (input.consume ['.'] (property ++ rest)) rest base property rfl
    isProperty following
  rw [Input.consume_consume] at read
  unfold link access
  rw [orElse_step]
  rw [orElse_step]
  rw [bind_step dot, read, size, ← Nat.add_assoc]
  rfl

theorem link_call {function : Node} {given : List Phrase}
    (each : ∀ item ∈ given, ReadsAs (spread self .expression <|> self .expression) item)
    (stops : StopsAtCloser (spread self .expression <|> self .expression))
    (split : input.rest = '(' :: (Phrase.listText given ++ ')' :: rest)) :
    link self function input =
      some (.mk .callExpression none
        ⟨function.start, input.offset + Text.byteLength ('(' :: (Phrase.listText given ++ [')']))⟩
        [function.withRole .function, .mk .arguments (some .arguments)
          ⟨input.offset, input.offset + Text.byteLength ('(' :: (Phrase.listText given ++ [')']))⟩
          (Phrase.trees (input.offset + 1) given)],
        input.consume ('(' :: (Phrase.listText given ++ [')'])) rest) := by
  have read := @delimitedList_step input _ rest ')' .arguments "(" ")" '(' given rfl rfl (by decide)
    (by decide) each stops split
  have noAccess : access self function input = none := by
    refine access_fails ?_ (@punct_mark_fails input [] _ '(' "." (by decide) (by decide) split rfl)
    rw [split]
    simp [follows]
  unfold link
  rw [orElse_fails noAccess, orElse_step]
  unfold callOf
  rw [argumentList_eq, bind_step read]
  simp [finish_step, Node.withRole]

end Links

end Grammar

end PatternScript.Script
