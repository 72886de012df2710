import PatternScript.Proofs.Notation.Lexing

/-!
Contract: a notation text is read by the longest match.

A word is a run of plain characters and of escapes. `Lexed` says how a text is read: blanks are
passed, a mark is a token of its own, a backslash that escapes nothing is one too, and a word is
taken only up to where no further word starts. The lexemes of a text are read this way, so a word is
as long as it can be in both directions.

Owns: what a word is made of, reading by the longest match, and where the tokens of a text are taken.
Does not own: which words are leaves.
-/

namespace PatternScript.Notation

open Text (byteLength)

/-! ## Words -/

/-- The characters that are a token on their own. -/
def marks : List Char :=
  ['[', ']', '<', '>', '{', '}', '(', ')', ',', '|', '"', '*', '/', '@', '!', '?', '%']

theorem ofChar?_eq_none_iff {c : Char} : Token.ofChar? c = none ↔ c ∉ marks := by
  unfold Token.ofChar?
  split <;> simp_all [marks]

theorem char_of_quote {c : Char} (isQuote : Token.ofChar? c = some .quote) : c = '"' := by
  unfold Token.ofChar? at isQuote
  split at isQuote <;> simp_all

theorem ofChar?_ne_strayBackslash (c : Char) : Token.ofChar? c ≠ some .strayBackslash := by
  unfold Token.ofChar?
  split <;> simp

theorem ne_backslash_of_blank {c : Char} (isBlank : Text.isBlank c = true) : c ≠ '\\' := by
  rintro rfl
  exact absurd isBlank (by decide)

theorem escapesPaired_blank {c : Char} (isBlank : Text.isBlank c = true) :
    escapesPaired [c] = true :=
  escapesPaired_cons (ne_backslash_of_blank isBlank) []

theorem escapesPaired_mark {c : Char} {token : Token} (isToken : Token.ofChar? c = some token) :
    escapesPaired [c] = true :=
  escapesPaired_cons (ofChar?_eq_some isToken).2.2 []

/-- A character that belongs to a word as it stands. -/
def isPlain (c : Char) : Bool :=
  !Text.isBlank c && c != '\\' && !marks.contains c

theorem isPlain_iff {c : Char} :
    isPlain c = true ↔ Text.isBlank c = false ∧ c ≠ '\\' ∧ Token.ofChar? c = none := by
  simp [isPlain, ofChar?_eq_none_iff, and_assoc]

/-- A run of plain characters and of escapes. A backslash escapes the character behind it unless
that is a line feed. -/
inductive WordRun : List Char → Prop where
  | nil : WordRun []
  | plain {c : Char} {rest : List Char} (plain : isPlain c = true) (onward : WordRun rest) :
      WordRun (c :: rest)
  | escape {c : Char} {rest : List Char} (notNewline : c ≠ '\n') (onward : WordRun rest) :
      WordRun ('\\' :: c :: rest)

/-- A word is a run that is not empty. -/
def IsWord (chars : List Char) : Prop :=
  chars ≠ [] ∧ WordRun chars

namespace WordRun

variable {chars left right : List Char}

theorem escapesPaired (run : WordRun chars) : Notation.escapesPaired chars = true := by
  induction run with
  | nil => rfl
  | plain plain _ inductionHypothesis =>
      rw [escapesPaired_cons (isPlain_iff.mp plain).2.1]
      exact inductionHypothesis
  | escape _ _ inductionHypothesis => exact inductionHypothesis

theorem of_isPlain (plain : ∀ c ∈ chars, isPlain c = true) : WordRun chars := by
  induction chars with
  | nil => exact .nil
  | cons c rest inductionHypothesis =>
      exact .plain (plain c List.mem_cons_self)
        (inductionHypothesis fun d member => plain d (List.mem_cons_of_mem c member))

theorem append (first : WordRun left) (second : WordRun right) : WordRun (left ++ right) := by
  induction first with
  | nil => exact second
  | plain plain _ inductionHypothesis => exact .plain plain inductionHypothesis
  | escape notNewline _ inductionHypothesis => exact .escape notNewline inductionHypothesis

theorem of_cons {c : Char} {rest : List Char} (run : WordRun (c :: rest))
    (notBackslash : c ≠ '\\') : isPlain c = true ∧ WordRun rest := by
  cases run with
  | plain plain onward => exact ⟨plain, onward⟩
  | escape _ _ => exact absurd rfl notBackslash

/-- A run can be divided wherever no escape is cut apart. -/
theorem divide (run : WordRun (left ++ right)) (paired : Notation.escapesPaired left = true) :
    WordRun left ∧ WordRun right := by
  fun_induction Notation.escapesPaired left with
  | case1 => exact ⟨.nil, run⟩
  | case2 => contradiction
  | case3 c rest inductionHypothesis =>
      cases run with
      | plain plain _ => exact absurd rfl (isPlain_iff.mp plain).2.1
      | escape notNewline onward =>
          obtain ⟨first, second⟩ := inductionHypothesis onward paired
          exact ⟨.escape notNewline first, second⟩
  | case4 c rest notLast notEscape inductionHypothesis =>
      obtain ⟨plain, onward⟩ := run.of_cons (ne_backslash notLast notEscape)
      obtain ⟨first, second⟩ := inductionHypothesis onward paired
      exact ⟨.plain plain first, second⟩

theorem newline_not_mem (run : WordRun chars) : '\n' ∉ chars := by
  induction run with
  | nil => simp
  | plain plain _ inductionHypothesis =>
      intro member
      rcases List.mem_cons.mp member with rfl | later
      · simp [isPlain, Text.isBlank] at plain
      · exact inductionHypothesis later
  | escape notNewline _ inductionHypothesis =>
      simp [Ne.symm notNewline, inductionHypothesis]

/-- What stands in a run without a backslash that escapes it is plain or starts an escape. -/
theorem isPlain_or_backslash {less more : List Char} {c : Char} (run : WordRun (less ++ c :: more))
    (paired : Notation.escapesPaired less = true) : isPlain c = true ∨ c = '\\' := by
  cases (run.divide paired).2 with
  | plain plain _ => exact .inl plain
  | escape _ _ => exact .inr rfl

end WordRun

/-- A word starts where the text starts. -/
def BeginsWord (text : List Char) : Prop :=
  ∃ word more, text = word ++ more ∧ IsWord word

namespace BeginsWord

variable {c : Char} {text rest : List Char}

theorem exists_cons (begins : BeginsWord text) :
    ∃ c rest, text = c :: rest ∧
      (isPlain c = true ∨ c = '\\' ∧ ∃ d more, rest = d :: more ∧ d ≠ '\n') := by
  obtain ⟨word, more, rfl, given, run⟩ := begins
  cases run with
  | nil => exact absurd rfl given
  | plain plain _ => exact ⟨_, _, rfl, .inl plain⟩
  | escape notNewline _ => exact ⟨_, _, rfl, .inr ⟨rfl, _, _, rfl, notNewline⟩⟩

theorem of_isWord {word : List Char} (isWord : IsWord word) (more : List Char) :
    BeginsWord (word ++ more) :=
  ⟨word, more, rfl, isWord⟩

theorem not_nil : ¬ BeginsWord [] := by
  rintro begins
  obtain ⟨_, _, equal, _⟩ := begins.exists_cons
  cases equal

theorem not_cons (notPlain : isPlain c = false) (notBackslash : c ≠ '\\') :
    ¬ BeginsWord (c :: rest) := by
  rintro begins
  obtain ⟨_, _, equal, plain | ⟨rfl, _⟩⟩ := begins.exists_cons
  · cases equal
    simp [notPlain] at plain
  · cases equal
    exact notBackslash rfl

theorem not_blank (isBlank : Text.isBlank c = true) : ¬ BeginsWord (c :: rest) := by
  apply not_cons
  · simp [isPlain, isBlank]
  · exact ne_backslash_of_blank isBlank

theorem not_mark {token : Token} (isToken : Token.ofChar? c = some token) :
    ¬ BeginsWord (c :: rest) := by
  refine not_cons ?_ (ofChar?_eq_some isToken).2.2
  rw [Bool.eq_false_iff]
  intro plain
  rw [(isPlain_iff.mp plain).2.2] at isToken
  cases isToken

theorem not_lastBackslash : ¬ BeginsWord ['\\'] := by
  rintro begins
  obtain ⟨_, _, equal, plain | ⟨_, _, _, rfl, _⟩⟩ := begins.exists_cons
  · cases equal
    exact absurd plain (by decide)
  · cases equal

theorem not_lineBackslash : ¬ BeginsWord ('\\' :: '\n' :: rest) := by
  rintro begins
  obtain ⟨_, _, equal, plain | ⟨_, _, _, rfl, notNewline⟩⟩ := begins.exists_cons
  · cases equal
    exact absurd plain (by decide)
  · cases equal
    exact notNewline rfl

end BeginsWord

/-! ## Reading by the longest match -/

/-- How a text whose first byte is `start` is read. -/
inductive Lexed : Nat → List Char → List Lexeme → Prop where
  | nil {start : Nat} : Lexed start [] []
  | blank {start : Nat} {c : Char} {rest : List Char} {list : List Lexeme}
      (isBlank : Text.isBlank c = true) (onward : Lexed (start + c.utf8Size) rest list) :
      Lexed start (c :: rest) list
  | mark {start : Nat} {c : Char} {rest : List Char} {list : List Lexeme} {token : Token}
      (isToken : Token.ofChar? c = some token)
      (onward : Lexed (start + c.utf8Size) rest list) :
      Lexed start (c :: rest) (⟨token, start, [c]⟩ :: list)
  | lastBackslash {start : Nat} : Lexed start ['\\'] [⟨.strayBackslash, start, ['\\']⟩]
  | lineBackslash {start : Nat} {rest : List Char} {list : List Lexeme}
      (onward : Lexed (start + 2) rest list) :
      Lexed start ('\\' :: '\n' :: rest) (⟨.strayBackslash, start, ['\\']⟩ :: list)
  | word {start : Nat} {chars rest : List Char} {list : List Lexeme} (isWord : IsWord chars)
      (longest : ¬ BeginsWord rest) (onward : Lexed (start + byteLength chars) rest list) :
      Lexed start (chars ++ rest) (⟨.word, start, chars⟩ :: list)

namespace Lexed

variable {start next : Nat} {chars text : List Char} {list : List Lexeme}

/-- The lexemes stand in the text one behind the other. -/
theorem tiled (lexed : Lexed start text list) : Tiled start text list := by
  induction lexed with
  | nil => exact .nil
  | @blank start c rest list _ _ inductionHypothesis => exact .prepend [c] inductionHypothesis
  | @mark start c rest list token _ _ inductionHypothesis =>
      exact @Tiled.head start rest list token [c] (by simp) inductionHypothesis
  | @lastBackslash start => exact @Tiled.head start [] [] _ ['\\'] (by simp) .nil
  | @lineBackslash start rest list _ inductionHypothesis =>
      refine @Tiled.head start ('\n' :: rest) list _ ['\\'] (by simp) ?_
      exact .prepend ['\n'] inductionHypothesis
  | word isWord _ _ inductionHypothesis => exact .head isWord.1 inductionHypothesis

/-- Where no word starts, the characters of a word in front are a word of their own. -/
theorem prependWord_eq_cons (lexed : Lexed next text list) (ends : ¬ BeginsWord text) :
    prependWord start next chars list = ⟨.word, start, chars⟩ :: list := by
  cases lexed with
  | nil => rfl
  | @blank _ c rest _ isBlank onward =>
      cases list with
      | nil => rfl
      | cons first more =>
          have apart := onward.tiled.start_le (@List.mem_cons_self _ first more)
          have width := c.utf8Size_pos
          rw [prependWord, if_neg (by omega)]
  | mark isToken _ => simp [prependWord, (ofChar?_eq_some isToken).1]
  | lastBackslash => rfl
  | lineBackslash _ => simp [prependWord]
  | word isWord _ _ => exact absurd (.of_isWord isWord _) ends

/-- A run in front of a text is read as one word with the word that starts there, if any. -/
theorem prependWord (isWord : IsWord chars)
    (lexed : Lexed (start + byteLength chars) text list) :
    Lexed start (chars ++ text)
      (Notation.prependWord start (start + byteLength chars) chars list) := by
  by_cases begins : BeginsWord text
  · cases lexed with
    | nil => exact absurd begins BeginsWord.not_nil
    | blank isBlank _ => exact absurd begins (BeginsWord.not_blank isBlank)
    | mark isToken _ => exact absurd begins (BeginsWord.not_mark isToken)
    | lastBackslash => exact absurd begins BeginsWord.not_lastBackslash
    | lineBackslash _ => exact absurd begins BeginsWord.not_lineBackslash
    | @word _ more rest behind isMore longest onward =>
        have joined : IsWord (chars ++ more) := by
          refine ⟨by simp [isWord.1], isWord.2.append isMore.2⟩
        rw [Notation.prependWord, if_pos ⟨rfl, rfl⟩, ← List.append_assoc]
        refine .word joined longest ?_
        rw [Text.byteLength_append, ← Nat.add_assoc]
        exact onward
  · rw [lexed.prependWord_eq_cons begins]
    exact .word isWord begins lexed

end Lexed

/-- The lexemes of a text are those that the longest match gives. -/
theorem lexed_lexemesFrom (start : Nat) (text : List Char) :
    Lexed start text (lexemesFrom start text) := by
  fun_induction lexemesFrom start text with
  | case1 => exact .nil
  | case2 start => exact .lastBackslash
  | case3 start rest inductionHypothesis => exact .lineBackslash inductionHypothesis
  | case4 start c rest notNewline next inductionHypothesis =>
      exact @Lexed.prependWord start ['\\', c] rest _ ⟨by simp, .escape notNewline .nil⟩
        inductionHypothesis
  | case5 start c rest _ _ next isBlank inductionHypothesis =>
      exact .blank isBlank inductionHypothesis
  | case6 start c rest _ _ next _ token isToken inductionHypothesis =>
      exact .mark isToken inductionHypothesis
  | case7 start c rest notLast notEscape next notBlank noToken inductionHypothesis =>
      have plain : isPlain c = true :=
        isPlain_iff.mpr ⟨Bool.eq_false_iff.mpr notBlank, ne_backslash notLast notEscape, noToken⟩
      exact @Lexed.prependWord start [c] rest _ ⟨by simp, .plain plain .nil⟩ inductionHypothesis

theorem tiled_lexemesFrom (start : Nat) (text : List Char) :
    Tiled start text (lexemesFrom start text) :=
  (lexed_lexemesFrom start text).tiled

/-- Characters of a word in front of a run that cannot go on are one word with the run. -/
theorem prependWord_lexemesFrom {run rest : List Char} (isRun : WordRun run)
    (ends : ¬ BeginsWord rest) (start next : Nat) (chars : List Char) :
    prependWord start next chars (lexemesFrom next (run ++ rest)) =
      ⟨.word, start, chars ++ run⟩ :: lexemesFrom (next + byteLength run) rest := by
  induction isRun generalizing start next chars with
  | nil =>
      rw [List.append_nil]
      exact (lexed_lexemesFrom next rest).prependWord_eq_cons ends
  | @plain c more plain _ inductionHypothesis =>
      obtain ⟨notBlank, notBackslash, noToken⟩ := isPlain_iff.mp plain
      rw [List.cons_append, lexemesFrom_cons notBackslash, if_neg (by simp [notBlank]), noToken,
        inductionHypothesis, prependWord, if_pos ⟨rfl, rfl⟩, Text.byteLength_cons, Nat.add_assoc]
      rfl
  | @escape c more notNewline _ inductionHypothesis =>
      rw [List.cons_append, List.cons_append, lexemesFrom_escape notNewline, inductionHypothesis,
        prependWord, if_pos ⟨rfl, rfl⟩, Text.byteLength_cons, Text.byteLength_cons, Nat.add_assoc,
        Nat.add_assoc]
      rfl

/-- A word that cannot go on is the first lexeme. -/
theorem lexemesFrom_word {word rest : List Char} (isWord : IsWord word) (ends : ¬ BeginsWord rest)
    (start : Nat) :
    lexemesFrom start (word ++ rest) =
      ⟨.word, start, word⟩ :: lexemesFrom (start + byteLength word) rest := by
  obtain ⟨given, isRun⟩ := isWord
  cases isRun with
  | nil => exact absurd rfl given
  | plain plain onward =>
      obtain ⟨notBlank, notBackslash, noToken⟩ := isPlain_iff.mp plain
      rw [List.cons_append, lexemesFrom_cons notBackslash, if_neg (by simp [notBlank]), noToken]
      simp only [prependWord_lexemesFrom onward ends, Text.byteLength_cons, Nat.add_assoc]
      rfl
  | escape notNewline onward =>
      rw [List.cons_append, List.cons_append, lexemesFrom_escape notNewline,
        prependWord_lexemesFrom onward ends, Text.byteLength_cons, Text.byteLength_cons,
        Nat.add_assoc, Nat.add_assoc]
      rfl

/-! ## The words of a text -/

/-- A word of a text that is as long as it can be: no word of the text that starts unescaped goes
beyond it, to neither side. -/
structure MaximalWord (text before word after : List Char) : Prop where
  split : text = before ++ (word ++ after)
  unescaped : escapesPaired before = true
  isWord : IsWord word
  maximal : ∀ less front back more, before = less ++ front → escapesPaired less = true →
    after = back ++ more → IsWord (front ++ (word ++ back)) → front = [] ∧ back = []

/-- A lexeme is a word of a text with `before` in front of it and `after` behind it. No word ends
where it starts, and none starts where it ends. -/
structure StandsAlone (start : Nat) (text : List Char) (lexeme : Lexeme)
    (before after : List Char) : Prop where
  split : text = before ++ (lexeme.text ++ after)
  place : lexeme.start = start + byteLength before
  unescaped : escapesPaired before = true
  isWord : IsWord lexeme.text
  starts : ∀ less front, before = less ++ front → escapesPaired less = true → ¬ IsWord front
  ends : ¬ BeginsWord after

namespace StandsAlone

variable {start : Nat} {text before after : List Char} {lexeme : Lexeme}

/-- A text may have more characters in front, if they end in no word or no word starts behind
them. -/
theorem prepend (piece : List Char) (paired : escapesPaired piece = true)
    (apart : BeginsWord text → ∀ less extra, piece = less ++ extra → escapesPaired less = true →
      ¬ IsWord extra)
    (alone : StandsAlone (start + byteLength piece) text lexeme before after) :
    StandsAlone start (piece ++ text) lexeme (piece ++ before) after where
  split := by rw [alone.split, List.append_assoc]
  place := by rw [alone.place, Text.byteLength_append, Nat.add_assoc]
  unescaped := by rw [escapesPaired_append paired, alone.unescaped]
  isWord := alone.isWord
  ends := alone.ends
  starts := by
    intro less front equal pairedLess isFront
    rcases List.append_eq_append_iff.mp equal with ⟨extra, rfl, rfl⟩ | ⟨extra, rfl, rfl⟩
    · rw [escapesPaired_append paired] at pairedLess
      exact alone.starts extra front rfl pairedLess isFront
    · -- The front word starts inside the piece, so its parts there and behind are runs.
      rw [escapesPaired_append pairedLess] at paired
      obtain ⟨runExtra, runBefore⟩ := isFront.2.divide paired
      by_cases nothing : before = []
      · have begins : BeginsWord text := by
          rw [alone.split, nothing]
          exact .of_isWord alone.isWord after
        refine apart begins less extra rfl pairedLess ⟨?_, runExtra⟩
        rintro rfl
        exact isFront.1 nothing
      · exact alone.starts [] before rfl rfl ⟨nothing, runBefore⟩

theorem maximalWord (alone : StandsAlone start text lexeme before after) :
    MaximalWord text before lexeme.text after where
  split := alone.split
  unescaped := alone.unescaped
  isWord := alone.isWord
  maximal := by
    intro less front back more atFront pairedLess atBack joined
    have pairedFront : escapesPaired front = true := by
      rw [← escapesPaired_append pairedLess, ← atFront]
      exact alone.unescaped
    obtain ⟨runFront, runBehind⟩ := joined.2.divide pairedFront
    obtain ⟨_, runBack⟩ := runBehind.divide alone.isWord.2.escapesPaired
    constructor
    · refine Decidable.byContradiction fun given => ?_
      exact alone.starts less front atFront pairedLess ⟨given, runFront⟩
    · refine Decidable.byContradiction fun given => alone.ends ?_
      rw [atBack]
      exact .of_isWord ⟨given, runBack⟩ more

end StandsAlone

/-- A character that starts no word ends in none. -/
theorem not_isWord_of_singleton {c : Char} (notWord : ∀ {rest}, ¬ BeginsWord (c :: rest))
    {less extra : List Char} (equal : [c] = less ++ extra) : ¬ IsWord extra := by
  intro isWord
  rcases List.append_eq_singleton_iff.mp equal.symm with ⟨_, rfl⟩ | ⟨_, rfl⟩
  · exact notWord (.of_isWord isWord [])
  · exact isWord.1 rfl

theorem not_isWord_of_lineBackslash {less extra : List Char} (equal : ['\\', '\n'] = less ++ extra)
    (paired : escapesPaired less = true) : ¬ IsWord extra := by
  intro isWord
  match less, equal with
  | [], equal =>
      rw [List.nil_append] at equal
      subst equal
      exact BeginsWord.not_lineBackslash (.of_isWord isWord [])
  | [_], equal =>
      cases equal
      contradiction
  | [_, _], equal =>
      cases equal
      exact isWord.1 rfl

/-- No word ends where a word of a text starts, and none starts where it ends. -/
theorem Lexed.exists_standsAlone {start : Nat} {text : List Char} {list : List Lexeme}
    (lexed : Lexed start text list) :
    ∀ lexeme ∈ list, lexeme.token = .word →
      ∃ before after, StandsAlone start text lexeme before after := by
  induction lexed with
  | nil => simp
  | @blank start c rest list isBlank _ inductionHypothesis =>
      intro lexeme member isWord
      obtain ⟨before, after, alone⟩ := inductionHypothesis lexeme member isWord
      refine ⟨[c] ++ before, after, alone.prepend [c] (escapesPaired_blank isBlank) ?_⟩
      exact fun _ less extra equal _ => not_isWord_of_singleton (BeginsWord.not_blank isBlank) equal
  | @mark start c rest list token isToken _ inductionHypothesis =>
      intro lexeme member isWord
      rcases List.mem_cons.mp member with rfl | later
      · exact absurd isWord (ofChar?_eq_some isToken).1
      · obtain ⟨before, after, alone⟩ := inductionHypothesis lexeme later isWord
        refine ⟨[c] ++ before, after, alone.prepend [c] (escapesPaired_mark isToken) ?_⟩
        exact fun _ less extra equal _ =>
          not_isWord_of_singleton (BeginsWord.not_mark isToken) equal
  | lastBackslash => simp
  | @lineBackslash start rest list _ inductionHypothesis =>
      intro lexeme member isWord
      rcases List.mem_cons.mp member with rfl | later
      · cases isWord
      · obtain ⟨before, after, alone⟩ := inductionHypothesis lexeme later isWord
        exact ⟨['\\', '\n'] ++ before, after, alone.prepend ['\\', '\n'] rfl
          fun _ less extra equal paired => not_isWord_of_lineBackslash equal paired⟩
  | @word start chars rest list isChars longest _ inductionHypothesis =>
      intro lexeme member isWord
      rcases List.mem_cons.mp member with rfl | later
      · refine ⟨[], rest, rfl, rfl, rfl, isChars, ?_, longest⟩
        intro less front nothing _ isFront
        exact isFront.1 (List.append_eq_nil_iff.mp nothing.symm).2
      · obtain ⟨before, after, alone⟩ := inductionHypothesis lexeme later isWord
        exact ⟨chars ++ before, after, alone.prepend chars isChars.2.escapesPaired
          fun begins => absurd begins longest⟩

/-- A word holds no line feed. -/
theorem newline_not_mem_word {start : Nat} {text : List Char} {lexeme : Lexeme}
    (member : lexeme ∈ lexemesFrom start text) (isWord : lexeme.token = .word) :
    '\n' ∉ lexeme.text := by
  obtain ⟨before, after, alone⟩ :=
    (lexed_lexemesFrom start text).exists_standsAlone lexeme member isWord
  exact alone.isWord.2.newline_not_mem

/-! ## Where tokens are taken -/

/-- What a token consists of and what stands behind it: a mark is one character, a word goes as far as
it can, and a backslash that escapes nothing is the last character or has a line feed behind it. -/
inductive Taken : Token → List Char → List Char → Prop where
  | mark {c : Char} {token : Token} {after : List Char} (isToken : Token.ofChar? c = some token) :
      Taken token [c] after
  | word {chars after : List Char} (isWord : IsWord chars) (longest : ¬ BeginsWord after) :
      Taken .word chars after
  | lastBackslash : Taken .strayBackslash ['\\'] []
  | lineBackslash {rest : List Char} : Taken .strayBackslash ['\\'] ('\n' :: rest)

/-- A lexeme is taken from a text behind paired escapes. -/
def TakenIn (start : Nat) (text : List Char) (lexeme : Lexeme) : Prop :=
  ∃ before after, text = before ++ (lexeme.text ++ after) ∧
    lexeme.start = start + byteLength before ∧ escapesPaired before = true ∧
    Taken lexeme.token lexeme.text after

theorem TakenIn.prepend {start : Nat} {text : List Char} {lexeme : Lexeme} (piece : List Char)
    (paired : escapesPaired piece = true)
    (taken : TakenIn (start + byteLength piece) text lexeme) :
    TakenIn start (piece ++ text) lexeme := by
  obtain ⟨before, after, rfl, place, pairedBefore, taken⟩ := taken
  refine ⟨piece ++ before, after, by rw [List.append_assoc], ?_, ?_, taken⟩
  · rw [place, Text.byteLength_append, Nat.add_assoc]
  · rw [escapesPaired_append paired, pairedBefore]

/-- Every lexeme is taken from the text where it stands. -/
theorem Lexed.takenIn {start : Nat} {text : List Char} {list : List Lexeme}
    (lexed : Lexed start text list) : ∀ lexeme ∈ list, TakenIn start text lexeme := by
  induction lexed with
  | nil => simp
  | @blank start c rest list isBlank _ inductionHypothesis =>
      intro lexeme member
      exact (inductionHypothesis lexeme member).prepend [c] (escapesPaired_blank isBlank)
  | @mark start c rest list token isToken _ inductionHypothesis =>
      intro lexeme member
      rcases List.mem_cons.mp member with rfl | later
      · exact ⟨[], rest, rfl, rfl, rfl, .mark isToken⟩
      · exact (inductionHypothesis lexeme later).prepend [c] (escapesPaired_mark isToken)
  | lastBackslash =>
      intro lexeme member
      rw [List.mem_singleton.mp member]
      exact ⟨[], [], rfl, rfl, rfl, .lastBackslash⟩
  | @lineBackslash start rest list _ inductionHypothesis =>
      intro lexeme member
      rcases List.mem_cons.mp member with rfl | later
      · exact ⟨[], '\n' :: rest, rfl, rfl, rfl, .lineBackslash⟩
      · exact (inductionHypothesis lexeme later).prepend ['\\', '\n'] rfl
  | @word start chars rest list isChars longest _ inductionHypothesis =>
      intro lexeme member
      rcases List.mem_cons.mp member with rfl | later
      · exact ⟨[], rest, rfl, rfl, rfl, .word isChars longest⟩
      · exact (inductionHypothesis lexeme later).prepend chars isChars.2.escapesPaired

/-- A lexeme is a double quote of a text with paired escapes before it. -/
def IsQuote (start : Nat) (text : List Char) (lexeme : Lexeme) : Prop :=
  ∃ before after, text = before ++ '"' :: after ∧ escapesPaired before = true ∧
    lexeme = ⟨.quote, start + byteLength before, ['"']⟩

/-- The quotes among the lexemes of a text are its double quotes that are not escaped. -/
theorem Lexed.isQuote {start : Nat} {text : List Char} {list : List Lexeme}
    (lexed : Lexed start text list) :
    ∀ lexeme ∈ list, lexeme.token = .quote → IsQuote start text lexeme := by
  rintro ⟨token, place, chars⟩ member (rfl : token = .quote)
  obtain ⟨before, after, split, (rfl : place = _), paired, taken⟩ := lexed.takenIn _ member
  cases taken with
  | mark isToken =>
      obtain rfl := char_of_quote isToken
      exact ⟨before, after, split, paired, rfl⟩

end PatternScript.Notation
