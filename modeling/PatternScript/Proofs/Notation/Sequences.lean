import PatternScript.Proofs.Notation.Leaves
import PatternScript.Proofs.Notation.Standing

/-!
Contract: the leaves of a text that follows the grammar of the notation.

A sequence is a run of steps with separators between them. A step is a word or a sequence in
brackets, with modifiers behind it: euclidean rhythms, and operators with or without an operand. The
trees here hold the separators and blanks too, so a tree stands for one layout of a sequence and
`text` is what is written for it. The words that stand as steps are read off the tree; the search
for leaves goes over the text once, with one depth and one place in memory, and finds the same ones.

Owns: the trees of sequences, their texts and step words, and the agreement with the leaves.
Does not own: texts outside the grammar.
-/

namespace PatternScript.Notation

open Text (byteLength)

/-! ## The grammar -/

/-- A word of plain characters. -/
structure Word where
  chars : List Char
  given : chars ≠ []
  plain : ∀ c ∈ chars, isPlain c = true

/-- A character that separates steps. -/
structure Separator where
  char : Char
  separates : Text.isBlank char = true ∨ char = ',' ∨ char = '|'

/-- A character that only takes room. -/
structure Blank where
  char : Char
  isBlank : Text.isBlank char = true

/-- The brackets around a sequence that is a step or an operand. -/
inductive Brackets where
  | square
  | angle
  | curly
deriving DecidableEq, Repr

namespace Brackets

def opening : Brackets → Char
  | square => '['
  | angle => '<'
  | curly => '{'

def closing : Brackets → Char
  | square => ']'
  | angle => '>'
  | curly => '}'

end Brackets

/-- What an operator does to the step before it. -/
inductive Operator where
  | fast
  | slow
  | elongate
  | replicate
  | degrade
  | steps
deriving DecidableEq, Repr

def Operator.char : Operator → Char
  | fast => '*'
  | slow => '/'
  | elongate => '@'
  | replicate => '!'
  | degrade => '?'
  | steps => '%'

mutual

/-- What a step starts with, and what an operand is. -/
inductive Term where
  | word (word : Word)
  | group (brackets : Brackets) (inside : Sequence true)

/-- What stands behind the term of a step. An operand directly follows its operator; a modifier may
have blanks before it. -/
inductive Modifiers where
  | none
  | blank (blank : Blank) (more : Modifiers)
  | euclid (inside : Sequence true) (more : Modifiers)
  | operator (operator : Operator) (more : Modifiers)
  | operand (operator : Operator) (operand : Term) (more : Modifiers)

/-- Steps with separators before, between and behind them. `free` says that a step may stand here:
it may at the start and behind a separator, and not behind a step. -/
inductive Sequence : (free : Bool) → Type where
  | done {free : Bool} : Sequence free
  | separator {free : Bool} (separator : Separator) (rest : Sequence true) : Sequence free
  | step (term : Term) (modifiers : Modifiers) (rest : Sequence false) : Sequence true

end

mutual

def Term.text : Term → List Char
  | .word word => word.chars
  | .group brackets inside => brackets.opening :: (inside.text ++ [brackets.closing])

def Modifiers.text : Modifiers → List Char
  | .none => []
  | .blank blank more => blank.char :: more.text
  | .euclid inside more => '(' :: (inside.text ++ [')']) ++ more.text
  | .operator operator more => operator.char :: more.text
  | .operand operator operand more => operator.char :: (operand.text ++ more.text)

def Sequence.text {free : Bool} : Sequence free → List Char
  | .done => []
  | .separator separator rest => separator.char :: rest.text
  | .step term modifiers rest => term.text ++ (modifiers.text ++ rest.text)

end

/-- A word with the offset of its first character. -/
structure StepWord where
  start : Nat
  word : Word

def StepWord.span (step : StepWord) : Span :=
  ⟨step.start, step.start + step.word.chars.length⟩

mutual

/-- The words of a term that stand as steps, if the term starts at an offset. -/
def Term.stepWords (offset : Nat) : Term → List StepWord
  | .word word => [⟨offset, word⟩]
  | .group _ inside => inside.stepWords (offset + 1)

/-- The words of a sequence that stand as steps, if it starts at an offset. Modifiers have none:
what is in an operand or in the parentheses of a euclidean rhythm is no step. -/
def Sequence.stepWords {free : Bool} (offset : Nat) : Sequence free → List StepWord
  | .done => []
  | .separator _ rest => rest.stepWords (offset + 1)
  | .step term modifiers rest =>
      term.stepWords offset ++
        rest.stepWords (offset + term.text.length + modifiers.text.length)

end

/-- The spans of the words that sound. -/
def soundingSpans (words : List StepWord) : List Span :=
  (words.filter fun step => isSounding step.word.chars).map StepWord.span

theorem soundingSpans_append (left right : List StepWord) :
    soundingSpans (left ++ right) = soundingSpans left ++ soundingSpans right := by
  rw [soundingSpans, List.filter_append, List.map_append]
  rfl

theorem soundingSpans_singleton (step : StepWord) :
    soundingSpans [step] = if isSounding step.word.chars = true then [step.span] else [] := by
  by_cases sounds : isSounding step.word.chars = true <;> simp [soundingSpans, sounds]

/-! ## Searching a text -/

/-- The leaves of the rest of a text, if the search stands at the byte `start`. -/
def leavesFrom (standing : Standing) (start : Nat) (text : List Char) : List Lexeme :=
  leafLexemes standing (lexemesFrom start text)

section Search

variable {c : Char} {token : Token} {word rest : List Char}

theorem leavesFrom_blank (isBlank : Text.isBlank c = true) (standing : Standing) (start : Nat) :
    leavesFrom standing start (c :: rest) = leavesFrom standing (start + c.utf8Size) rest := by
  rw [leavesFrom, lexemesFrom_cons (ne_backslash_of_blank isBlank), if_pos isBlank]
  rfl

/-- A mark is no leaf. -/
theorem leavesFrom_mark (isToken : Token.ofChar? c = some token) (standing : Standing)
    (start : Nat) :
    leavesFrom standing start (c :: rest) =
      leavesFrom (standing.step ⟨token, start, [c]⟩) (start + c.utf8Size) rest := by
  obtain ⟨notWord, notBlank, notBackslash⟩ := ofChar?_eq_some isToken
  have notReported : ¬ standing.Reports ⟨token, start, [c]⟩ := fun reported => notWord reported.2.1
  rw [leavesFrom, lexemesFrom_cons notBackslash, if_neg (by simp [notBlank]), isToken]
  simp only [leafLexemes_cons, if_neg notReported, List.nil_append]
  rfl

theorem leavesFrom_word (isWord : IsWord word) (ends : ¬ BeginsWord rest) (standing : Standing)
    (start : Nat) :
    leavesFrom standing start (word ++ rest) =
      (if standing.Reports ⟨.word, start, word⟩ then [⟨.word, start, word⟩] else []) ++
        leavesFrom (standing.step ⟨.word, start, word⟩) (start + byteLength word) rest := by
  rw [leavesFrom, lexemesFrom_word isWord ends, leafLexemes_cons]
  rfl

end Search

/-- A group that is left out is passed with its brackets, if what is inside is passed. -/
theorem leavesFrom_leftOut {opening closing : Char} {openingToken closingToken : Token}
    {inside rest : List Char} {standing : Standing} {start depth : Nat}
    (opens : Token.ofChar? opening = some openingToken)
    (enters : standing.step ⟨openingToken, start, [opening]⟩ = { skipDepth := depth + 1 })
    (closes : Token.ofChar? closing = some closingToken) (isClosing : closingToken.closes = true)
    (passed : ∀ start, leavesFrom { skipDepth := depth + 1 } start (inside ++ closing :: rest) =
      leavesFrom { skipDepth := depth + 1 } (start + byteLength inside) (closing :: rest)) :
    leavesFrom standing start (opening :: (inside ++ closing :: rest)) =
      leavesFrom { skipDepth := depth }
        (start + byteLength (opening :: (inside ++ [closing]))) rest := by
  have leaves : ∀ place, Standing.step { skipDepth := depth + 1 } ⟨closingToken, place, [closing]⟩ =
      { skipDepth := depth } := by
    intro place
    simp [Standing.step, skipLexeme, isClosing, (Token.of_closes isClosing).1]
  rw [leavesFrom_mark opens, enters, passed, leavesFrom_mark closes, leaves]
  simp only [Text.byteLength_cons, Text.byteLength_append, Text.byteLength_nil, Nat.add_assoc,
    Nat.add_zero]

theorem Word.isWord (word : Word) : IsWord word.chars :=
  ⟨word.given, .of_isPlain word.plain⟩

theorem Brackets.exists_opening (brackets : Brackets) :
    ∃ token, Token.ofChar? brackets.opening = some token ∧ token.opens = true ∧
      token ≠ .openEuclid := by
  cases brackets <;> exact ⟨_, rfl, rfl, by decide⟩

theorem Brackets.exists_closing (brackets : Brackets) :
    ∃ token, Token.ofChar? brackets.closing = some token ∧ token.closes = true := by
  cases brackets <;> exact ⟨_, rfl, rfl⟩

theorem Token.isEuclid_or_bracket {c : Char} {token : Token} (isToken : ofChar? c = some token)
    (opens : token.opens = true) :
    token = .openEuclid ∨ ∃ brackets : Brackets, c = brackets.opening := by
  unfold ofChar? at isToken
  split at isToken
  case h_1 => exact .inr ⟨.square, rfl⟩
  case h_3 => exact .inr ⟨.angle, rfl⟩
  case h_5 => exact .inr ⟨.curly, rfl⟩
  case h_7 => exact .inl (Option.some.inj isToken).symm
  case h_18 => cases isToken
  all_goals
    cases isToken
    cases opens

theorem Operator.exists_token (operator : Operator) :
    ∃ token, Token.ofChar? operator.char = some token ∧ token.isOperator = true := by
  cases operator <;> exact ⟨_, rfl, rfl⟩

/-! ## What may follow -/

/-- No operand starts where the text starts: neither a word nor a bracket that groups steps. -/
def StartsNoOperand (text : List Char) : Prop :=
  ¬ BeginsWord text ∧ ∀ brackets : Brackets, text.head? ≠ some brackets.opening

namespace StartsNoOperand

variable {c : Char} {rest : List Char}

theorem nil : StartsNoOperand [] :=
  ⟨BeginsWord.not_nil, by simp⟩

theorem blank (isBlank : Text.isBlank c = true) : StartsNoOperand (c :: rest) := by
  refine ⟨BeginsWord.not_blank isBlank, ?_⟩
  rintro brackets equal
  obtain rfl : c = brackets.opening := by simpa using equal
  cases brackets <;> exact absurd isBlank (by decide)

theorem mark {token : Token} (isToken : Token.ofChar? c = some token)
    (onlyEuclid : token.opens = true → token = .openEuclid) : StartsNoOperand (c :: rest) := by
  refine ⟨BeginsWord.not_mark isToken, ?_⟩
  rintro brackets equal
  obtain rfl : c = brackets.opening := by simpa using equal
  obtain ⟨other, isOther, opens, notEuclid⟩ := brackets.exists_opening
  obtain rfl : token = other := Option.some.inj (isToken.symm.trans isOther)
  exact notEuclid (onlyEuclid opens)

theorem closing (brackets : Brackets) : StartsNoOperand (brackets.closing :: rest) := by
  obtain ⟨token, isToken, closes⟩ := brackets.exists_closing
  refine .mark isToken fun opens => ?_
  rw [(Token.of_closes closes).1] at opens
  cases opens

theorem operator (operator : Operator) : StartsNoOperand (operator.char :: rest) := by
  obtain ⟨token, isToken, isOperator⟩ := operator.exists_token
  refine .mark isToken fun opens => ?_
  rw [(Token.of_isOperator isOperator).1] at opens
  cases opens

theorem separator (separator : Separator) : StartsNoOperand (separator.char :: rest) := by
  obtain ⟨c, isBlank | rfl | rfl⟩ := separator
  · exact .blank isBlank
  · exact .mark rfl (by decide)
  · exact .mark rfl (by decide)

theorem modifiers (ends : StartsNoOperand rest) :
    ∀ modifiers : Modifiers, StartsNoOperand (modifiers.text ++ rest)
  | .none => ends
  | .blank blank _ => .blank blank.isBlank
  | .euclid _ _ => .mark rfl (by decide)
  | .operator operator _ => .operator operator
  | .operand operator _ _ => .operator operator

theorem behindStep (ends : StartsNoOperand rest) :
    ∀ sequence : Sequence false, StartsNoOperand (sequence.text ++ rest)
  | .done => ends
  | .separator separator _ => .separator separator

end StartsNoOperand

/-! ## Groups that are left out -/

/-- A separator is passed wherever commas and bars change nothing. -/
theorem leavesFrom_separator (separator : Separator) {standing : Standing}
    (unchanged : ∀ token place chars, token = .comma ∨ token = .choice →
      standing.step ⟨token, place, chars⟩ = standing) (start : Nat) (rest : List Char) :
    leavesFrom standing start (separator.char :: rest) =
      leavesFrom standing (start + separator.char.utf8Size) rest := by
  obtain ⟨c, isBlank | rfl | rfl⟩ := separator
  · exact leavesFrom_blank isBlank standing start
  · rw [leavesFrom_mark rfl, unchanged _ _ _ (.inl rfl)]
  · rw [leavesFrom_mark rfl, unchanged _ _ _ (.inr rfl)]

theorem step_skipped (depth : Nat) (lexeme : Lexeme) :
    Standing.step { skipDepth := depth + 1 } lexeme =
      { skipDepth := skipLexeme (depth + 1) lexeme.token } :=
  if_pos (Nat.succ_pos depth)

/-- Inside a group that is left out, a mark that is no bracket is passed. -/
theorem leavesFrom_skippedMark {c : Char} {token : Token} (isToken : Token.ofChar? c = some token)
    (notOpening : token.opens = false) (notClosing : token.closes = false) (depth start : Nat)
    (rest : List Char) :
    leavesFrom { skipDepth := depth + 1 } start (c :: rest) =
      leavesFrom { skipDepth := depth + 1 } (start + c.utf8Size) rest := by
  rw [leavesFrom_mark isToken, step_skipped]
  simp [skipLexeme, notOpening, notClosing]

theorem leavesFrom_skippedOperator (operator : Operator) (depth start : Nat) (rest : List Char) :
    leavesFrom { skipDepth := depth + 1 } start (operator.char :: rest) =
      leavesFrom { skipDepth := depth + 1 } (start + operator.char.utf8Size) rest := by
  obtain ⟨token, isToken, isOperator⟩ := operator.exists_token
  obtain ⟨notOpening, notClosing⟩ := Token.of_isOperator isOperator
  exact leavesFrom_skippedMark isToken notOpening notClosing depth start rest

mutual

/-- Inside a group that is left out, a term is passed. -/
theorem Term.passed {rest : List Char} (ends : StartsNoOperand rest) (depth start : Nat) :
    ∀ term : Term, leavesFrom { skipDepth := depth + 1 } start (term.text ++ rest) =
      leavesFrom { skipDepth := depth + 1 } (start + byteLength term.text) rest
  | .word word => by
      rw [Term.text, leavesFrom_word word.isWord ends.1, step_skipped]
      rfl
  | .group brackets inside => by
      obtain ⟨openingToken, opens, isOpening, _⟩ := brackets.exists_opening
      obtain ⟨closingToken, closes, isClosing⟩ := brackets.exists_closing
      rw [Term.text, List.cons_append, List.append_assoc]
      refine leavesFrom_leftOut opens ?_ closes isClosing fun start => ?_
      · rw [step_skipped, skipLexeme, if_pos isOpening]
      · exact inside.passed (.closing brackets) (depth + 1) start

/-- Inside a group that is left out, modifiers are passed. -/
theorem Modifiers.passed {rest : List Char} (ends : StartsNoOperand rest) (depth start : Nat) :
    ∀ modifiers : Modifiers, leavesFrom { skipDepth := depth + 1 } start (modifiers.text ++ rest) =
      leavesFrom { skipDepth := depth + 1 } (start + byteLength modifiers.text) rest
  | .none => rfl
  | .blank blank more => by
      rw [Modifiers.text, List.cons_append, leavesFrom_blank blank.isBlank, more.passed ends,
        Text.byteLength_cons, Nat.add_assoc]
  | .euclid inside more => by
      have group := @leavesFrom_leftOut '(' ')' .openEuclid .closeEuclid inside.text
        (more.text ++ rest) { skipDepth := depth + 1 } start (depth + 1) rfl
        (step_skipped depth _) rfl rfl
        (inside.passed (.mark rfl (by decide)) (depth + 1))
      rw [Modifiers.text, List.append_assoc, List.cons_append, List.append_assoc,
        List.singleton_append, group, more.passed ends, Text.byteLength_append, Nat.add_assoc]
  | .operator operator more => by
      rw [Modifiers.text, List.cons_append, leavesFrom_skippedOperator, more.passed ends,
        Text.byteLength_cons, Nat.add_assoc]
  | .operand operator operand more => by
      rw [Modifiers.text, List.cons_append, List.append_assoc, leavesFrom_skippedOperator,
        operand.passed (ends.modifiers more), more.passed ends, Text.byteLength_cons,
        Text.byteLength_append, Nat.add_assoc, Nat.add_assoc]

/-- Inside a group that is left out, a sequence is passed. -/
theorem Sequence.passed {rest : List Char} (ends : StartsNoOperand rest) (depth start : Nat)
    {free : Bool} : ∀ sequence : Sequence free,
      leavesFrom { skipDepth := depth + 1 } start (sequence.text ++ rest) =
        leavesFrom { skipDepth := depth + 1 } (start + byteLength sequence.text) rest
  | .done => rfl
  | .separator separator more => by
      have unchanged : ∀ token place chars, token = .comma ∨ token = .choice →
          Standing.step { skipDepth := depth + 1 } ⟨token, place, chars⟩ =
            { skipDepth := depth + 1 } := by
        rintro _ _ _ (rfl | rfl) <;> rfl
      rw [Sequence.text, List.cons_append, leavesFrom_separator separator unchanged,
        more.passed ends, Text.byteLength_cons, Nat.add_assoc]
  | .step term modifiers more => by
      have behind := ends.behindStep more
      rw [Sequence.text, List.append_assoc, List.append_assoc,
        term.passed (behind.modifiers modifiers), modifiers.passed behind, more.passed ends,
        Text.byteLength_append, Text.byteLength_append, Nat.add_assoc, Nat.add_assoc]

end

/-! ## Modifiers -/

/-- An operator is forgotten if the next lexeme does not follow it or can be no operand. -/
theorem leafLexemes_behindOperator {place : Nat} {lexeme : Lexeme} {rest : List Lexeme}
    (free : place ≠ lexeme.start ∨
      lexeme.token ≠ .word ∧ (lexeme.token.opens = true → lexeme.token = .openEuclid)) :
    leafLexemes { operatorStop := some place } (lexeme :: rest) =
      leafLexemes {} (lexeme :: rest) := by
  rw [leafLexemes_cons, leafLexemes_cons]
  rcases free with apart | ⟨notWord, onlyEuclid⟩
  · simp [Standing.Reports, Standing.step, apart]
  · by_cases opens : lexeme.token.opens = true
    · simp [Standing.Reports, Standing.step, onlyEuclid opens]
    · simp [Standing.Reports, Standing.step, notWord, opens]

theorem leavesFrom_behindOperator {start : Nat} {rest : List Char} (free : StartsNoOperand rest) :
    leavesFrom { operatorStop := some start } start rest = leavesFrom {} start rest := by
  have lexed := lexed_lexemesFrom start rest
  rw [leavesFrom, leavesFrom]
  generalize lexemesFrom start rest = list at lexed ⊢
  cases lexed with
  | nil => rfl
  | @blank _ c more _ isBlank onward =>
      cases list with
      | nil => rfl
      | cons first behind =>
          have apart := onward.tiled.start_le (@List.mem_cons_self _ first behind)
          have width := c.utf8Size_pos
          exact leafLexemes_behindOperator (.inl (by omega))
  | mark isToken onward =>
      refine leafLexemes_behindOperator (.inr ⟨(ofChar?_eq_some isToken).1, fun opens => ?_⟩)
      rcases Token.isEuclid_or_bracket isToken opens with isEuclid | ⟨brackets, rfl⟩
      · exact isEuclid
      · exact absurd rfl (free.2 brackets)
  | lastBackslash => rfl
  | lineBackslash onward => exact leafLexemes_behindOperator (.inr (by simp [Token.opens]))
  | word isWord _ _ => exact absurd (.of_isWord isWord _) free.1

/-- Behind an operator that is no step, the place of the operator's end is remembered. -/
theorem leavesFrom_operator (operator : Operator) (start : Nat) (rest : List Char) :
    leavesFrom {} start (operator.char :: rest) =
      leavesFrom { operatorStop := some (start + operator.char.utf8Size) }
        (start + operator.char.utf8Size) rest := by
  obtain ⟨token, isToken, isOperator⟩ := operator.exists_token
  have notOpening := (Token.of_isOperator isOperator).1
  have notEuclid : token ≠ .openEuclid := by
    rintro rfl
    cases notOpening
  rw [leavesFrom_mark isToken]
  simp [Standing.step, notOpening, notEuclid, isOperator, Lexeme.stop]

/-- A term that directly follows an operator is its operand and has no leaves. -/
theorem Term.isOperand {rest : List Char} (ends : StartsNoOperand rest) (start : Nat) :
    ∀ term : Term, leavesFrom { operatorStop := some start } start (term.text ++ rest) =
      leavesFrom {} (start + byteLength term.text) rest
  | .word single => by
      rw [Term.text, leavesFrom_word single.isWord ends.1, if_neg (by simp [Standing.Reports])]
      rfl
  | .group brackets inside => by
      obtain ⟨openingToken, opens, isOpening, _⟩ := brackets.exists_opening
      obtain ⟨closingToken, closes, isClosing⟩ := brackets.exists_closing
      rw [Term.text, List.cons_append, List.append_assoc]
      refine leavesFrom_leftOut opens ?_ closes isClosing (inside.passed (.closing brackets) 0)
      simp [Standing.step, isOpening]

/-- Modifiers have no leaves. -/
theorem Modifiers.noLeaf {rest : List Char} (ends : StartsNoOperand rest) (start : Nat) :
    ∀ modifiers : Modifiers, leavesFrom {} start (modifiers.text ++ rest) =
      leavesFrom {} (start + byteLength modifiers.text) rest
  | .none => rfl
  | .blank space more => by
      rw [Modifiers.text, List.cons_append, leavesFrom_blank space.isBlank, more.noLeaf ends,
        Text.byteLength_cons, Nat.add_assoc]
  | .euclid inside more => by
      have group := @leavesFrom_leftOut '(' ')' .openEuclid .closeEuclid inside.text
        (more.text ++ rest) {} start 0 rfl rfl rfl rfl (inside.passed (.mark rfl (by decide)) 0)
      rw [Modifiers.text, List.append_assoc, List.cons_append, List.append_assoc,
        List.singleton_append, group, more.noLeaf ends, Text.byteLength_append, Nat.add_assoc]
  | .operator sign more => by
      rw [Modifiers.text, List.cons_append, leavesFrom_operator,
        leavesFrom_behindOperator (ends.modifiers more), more.noLeaf ends, Text.byteLength_cons,
        Nat.add_assoc]
  | .operand sign term more => by
      rw [Modifiers.text, List.cons_append, List.append_assoc, leavesFrom_operator,
        term.isOperand (ends.modifiers more), more.noLeaf ends, Text.byteLength_cons,
        Text.byteLength_append, Nat.add_assoc, Nat.add_assoc]

/-! ## Step words -/

/-- The spans of the leaves of the rest of a text, with the part before it given. -/
def spansFrom (offset : Nat) (before rest : List Char) : List Span :=
  (leavesFrom {} (byteLength before) rest).map fun lexeme =>
    ((OffsetIndex.ofText (before ++ rest)).span lexeme.range).shift offset

theorem leafSpans_eq_spansFrom (code : List Char) (offset : Nat) :
    leafSpans code offset = spansFrom offset [] code := rfl

section Spans

variable {offset : Nat} {before piece rest : List Char}

theorem spansFrom_nil : spansFrom offset before [] = [] := rfl

/-- A piece without leaves is passed. -/
theorem spansFrom_append (noLeaf : leavesFrom {} (byteLength before) (piece ++ rest) =
      leavesFrom {} (byteLength before + byteLength piece) rest) :
    spansFrom offset before (piece ++ rest) = spansFrom offset (before ++ piece) rest := by
  rw [spansFrom, noLeaf, spansFrom, Text.byteLength_append, List.append_assoc]

/-- A mark that opens no group which is left out, and is no operator, is passed. -/
theorem spansFrom_mark {c : Char} {token : Token} (isToken : Token.ofChar? c = some token)
    (notEuclid : token ≠ .openEuclid) (notOperator : token.isOperator = false) :
    spansFrom offset before (c :: rest) = spansFrom offset (before ++ [c]) rest := by
  refine @spansFrom_append offset before [c] rest ?_
  rw [List.singleton_append, leavesFrom_mark isToken]
  simp [Standing.step, notEuclid, notOperator]

theorem spansFrom_word (word : Word) (ends : ¬ BeginsWord rest) :
    spansFrom offset before (word.chars ++ rest) =
      soundingSpans [⟨offset + before.length, word⟩] ++
        spansFrom offset (before ++ word.chars) rest := by
  have whole : before ++ (word.chars ++ rest) = before ++ (word.chars ++ rest) := rfl
  have placed := SourceText.span_of_append whole rfl rfl
  have atWord : ((OffsetIndex.ofText (before ++ (word.chars ++ rest))).span
      (Lexeme.range ⟨.word, byteLength before, word.chars⟩)).shift offset =
      StepWord.span ⟨offset + before.length, word⟩ := by
    simp only [SourceText.span, SourceText.ofChars] at placed
    simp only [Lexeme.range, Lexeme.stop, placed, Span.shift, StepWord.span, Span.mk.injEq]
    omega
  have behind : (leavesFrom {} (byteLength before + byteLength word.chars) rest).map (fun lexeme =>
      ((OffsetIndex.ofText (before ++ (word.chars ++ rest))).span lexeme.range).shift offset) =
      spansFrom offset (before ++ word.chars) rest := by
    rw [spansFrom, Text.byteLength_append, List.append_assoc]
  rw [spansFrom, leavesFrom_word word.isWord ends, List.map_append, ← behind,
    soundingSpans_singleton]
  by_cases sounds : isSounding word.chars = true
  · rw [if_pos (by simp [Standing.Reports, sounds]), if_pos sounds, List.map_singleton, atWord]
    rfl
  · rw [if_neg (by simp [Standing.Reports, sounds]), if_neg sounds]
    rfl

end Spans

mutual

/-- The leaves of a term are its step words that sound. -/
theorem Term.spans {rest : List Char} (ends : StartsNoOperand rest) (offset : Nat)
    (before : List Char) : ∀ term : Term, spansFrom offset before (term.text ++ rest) =
      soundingSpans (term.stepWords (offset + before.length)) ++
        spansFrom offset (before ++ term.text) rest
  | .word word => by
      rw [Term.text, Term.stepWords]
      exact spansFrom_word word ends.1
  | .group brackets inside => by
      obtain ⟨openingToken, opens, isOpening, notEuclid⟩ := brackets.exists_opening
      obtain ⟨closingToken, closes, isClosing⟩ := brackets.exists_closing
      have notEuclid' : closingToken ≠ .openEuclid := by
        rintro rfl
        cases isClosing
      rw [Term.text, Term.stepWords, List.cons_append, List.append_assoc, List.singleton_append,
        spansFrom_mark opens notEuclid (Token.of_opens isOpening).2,
        inside.spans (.closing brackets),
        spansFrom_mark closes notEuclid' (Token.of_closes isClosing).2]
      simp only [List.append_assoc, List.length_append, List.length_singleton,
        List.cons_append, List.nil_append, Nat.add_assoc]

/-- The leaves of a sequence are its step words that sound. -/
theorem Sequence.spans {rest : List Char} (ends : StartsNoOperand rest) (offset : Nat)
    (before : List Char) {free : Bool} : ∀ sequence : Sequence free,
      spansFrom offset before (sequence.text ++ rest) =
        soundingSpans (sequence.stepWords (offset + before.length)) ++
          spansFrom offset (before ++ sequence.text) rest
  | .done => by
      rw [Sequence.text, List.append_nil]
      rfl
  | .separator separator more => by
      have passed := @spansFrom_append offset before [separator.char] (more.text ++ rest)
        (leavesFrom_separator separator (by rintro _ _ _ (rfl | rfl) <;> rfl) _ _)
      rw [Sequence.text, Sequence.stepWords, List.cons_append, ← List.singleton_append, passed,
        more.spans ends, List.length_append, List.append_assoc, List.singleton_append]
      rfl
  | .step term modifiers more => by
      have behind := ends.behindStep more
      have passed := @spansFrom_append offset (before ++ term.text) modifiers.text
        (more.text ++ rest) (modifiers.noLeaf behind _)
      rw [Sequence.text, Sequence.stepWords, List.append_assoc, List.append_assoc,
        term.spans (behind.modifiers modifiers), passed, more.spans ends, soundingSpans_append]
      simp only [List.append_assoc, List.length_append, Nat.add_assoc]

end

/-- The search finds exactly the leaves of the grammar. For every sequence in every layout, bare or
in double quotes, the leaves of its text are the words that stand as steps, outside all operands and
euclidean rhythms, and sound. -/
theorem leaves_of_sequence (sequence : Sequence true) (offset : Nat) :
    leafSpans sequence.text offset = soundingSpans (sequence.stepWords offset) ∧
      leafSpans ('"' :: (sequence.text ++ ['"'])) offset =
        soundingSpans (sequence.stepWords (offset + 1)) := by
  constructor
  · have found := sequence.spans StartsNoOperand.nil offset []
    rw [List.append_nil, spansFrom_nil, List.append_nil] at found
    exact found
  · have quote : Token.ofChar? '"' = some .quote := rfl
    have closing : StartsNoOperand ['"'] := .mark quote (by decide)
    rw [leafSpans_eq_spansFrom, spansFrom_mark quote (by decide) rfl, sequence.spans closing,
      spansFrom_mark quote (by decide) rfl, spansFrom_nil, List.append_nil]
    rfl

example :
    let word (c : Char) (plain : isPlain c = true) : Term :=
      .word ⟨[c], by simp, by simpa using plain⟩
    let space : Separator := ⟨' ', .inl rfl⟩
    let pair : Sequence true :=
      .step (word '2' rfl) .none (.separator space (.step (word '~' rfl) .none .done))
    let sequence : Sequence true :=
      .step (word 'a' rfl) (.operand .fast (.group .angle pair) (.euclid pair .none))
        (.separator space (.step (.group .square pair) (.operator .degrade .none) .done))
    sequence.text = "a*<2 ~>(2 ~) [2 ~]?".toList ∧
      soundingSpans (sequence.stepWords 5) = [⟨5, 6⟩, ⟨19, 20⟩] := by
  decide

end PatternScript.Notation
