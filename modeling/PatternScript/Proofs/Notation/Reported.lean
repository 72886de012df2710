import PatternScript.Proofs.Notation.Leaves
import PatternScript.Proofs.Notation.Standing

/-!
Contract: what the leaves of any text are, however broken the text is.

Brackets need not match, quotes need not pair up, and a backslash may escape nothing. Each reported
span still covers one word of the text that is as long as it can be, sounds and is no operand, and
between two spans there is always a character. Conversely a word is left out only for a reason that
stands before it in the text.

Owns: the place of a reported word and the order of the spans.
Does not own: the leaves of texts that follow the grammar of sequences.
-/

namespace PatternScript.Notation

open Text (byteLength Boundary)

/-! ## Places of lexemes -/

section Places

variable {code : List Char} {lexeme earlier later : Lexeme}

theorem start_lt_stop (member : lexeme ∈ lexemes code) : lexeme.start < lexeme.stop := by
  have covers := (tiled_lexemesFrom 0 code).covers member
  have bytes : byteLength lexeme.text ≠ 0 := by
    intro none
    exact covers (Text.eq_nil_of_byteLength_eq_zero none)
  rw [Lexeme.stop]
  omega

theorem boundary_start (member : lexeme ∈ lexemes code) : Boundary code lexeme.start := by
  obtain ⟨before, after, split, place⟩ := (tiled_lexemesFrom 0 code).exists_append member
  exact Text.boundary_iff.mpr ⟨before, lexeme.text ++ after, split, by omega⟩

theorem boundary_stop (member : lexeme ∈ lexemes code) : Boundary code lexeme.stop := by
  obtain ⟨before, after, split, place⟩ := (tiled_lexemesFrom 0 code).exists_append member
  refine Text.boundary_iff.mpr ⟨before ++ lexeme.text, after, by rw [split, List.append_assoc], ?_⟩
  rw [Text.byteLength_append, Lexeme.stop]
  omega

/-- Two words that follow each other do not touch. -/
theorem stop_ne_start_of_words (isEarlier : earlier ∈ lexemes code) (isLater : later ∈ lexemes code)
    (isWord : earlier.token = .word) (isWord' : later.token = .word) :
    earlier.stop ≠ later.start := by
  intro touching
  obtain ⟨before, after, alone⟩ :=
    (lexed_lexemesFrom 0 code).exists_standsAlone earlier isEarlier isWord
  obtain ⟨before', after', alone'⟩ :=
    (lexed_lexemesFrom 0 code).exists_standsAlone later isLater isWord'
  have same : (before ++ earlier.text) ++ after = before' ++ (later.text ++ after') := by
    rw [List.append_assoc, ← alone.split, ← alone'.split]
  have place := alone.place
  have place' := alone'.place
  rw [Lexeme.stop] at touching
  obtain ⟨_, rfl⟩ := Text.append_inj_of_byteLength same
    (by rw [Text.byteLength_append]; omega)
  exact alone.ends (.of_isWord alone'.isWord after')

end Places

/-! ## Reported words -/

/-- A leaf has been reported behind some part of the lexemes. -/
theorem exists_reports_of_mem {standing : Standing} {list : List Lexeme} {lexeme : Lexeme}
    (member : lexeme ∈ leafLexemes standing list) :
    ∃ earlier later, list = earlier ++ lexeme :: later ∧
      (standing.after earlier).Reports lexeme := by
  induction list generalizing standing with
  | nil => cases member
  | cons first rest inductionHypothesis =>
      rw [leafLexemes_cons] at member
      rcases List.mem_append.mp member with atHead | behind
      · by_cases reported : standing.Reports first
        · rw [if_pos reported] at atHead
          obtain rfl := List.mem_singleton.mp atHead
          exact ⟨[], rest, rfl, reported⟩
        · rw [if_neg reported] at atHead
          cases atHead
      · obtain ⟨earlier, later, rfl, reported⟩ := inductionHypothesis behind
        exact ⟨first :: earlier, later, rfl, reported⟩

/-- Whatever is reported behind some part of the lexemes is a leaf. -/
theorem mem_leafLexemes_of_reports {standing : Standing} {earlier later : List Lexeme}
    {lexeme : Lexeme} (reported : (standing.after earlier).Reports lexeme) :
    lexeme ∈ leafLexemes standing (earlier ++ lexeme :: later) := by
  rw [leafLexemes_append, leafLexemes_cons, if_pos reported]
  simp

/-- Only the lexeme before another one can end where that one starts. -/
theorem behindOperator_of_stop_eq {code : List Char} {earlier later : List Lexeme}
    {operator lexeme : Lexeme} (split : lexemes code = earlier ++ lexeme :: later)
    (member : operator ∈ lexemes code) (isOperator : operator.token.isOperator = true)
    (touching : operator.stop = lexeme.start) : BehindOperator earlier lexeme := by
  have isLexeme : lexeme ∈ lexemes code := by simp [split]
  have ordered := (tiled_lexemesFrom 0 code).pairwise
  rw [← lexemes, split, List.pairwise_append] at ordered
  obtain ⟨amongEarlier, amongRest, across⟩ := ordered
  have width := start_lt_stop isLexeme
  have operatorWidth := start_lt_stop member
  rw [split] at member
  rcases List.mem_append.mp member with isEarlier | isRest
  · obtain ⟨before, between, rfl⟩ := List.append_of_mem isEarlier
    cases between with
    | nil => exact ⟨operator, by simp, isOperator, touching⟩
    | cons next more =>
        -- A lexeme between the two would have to be empty.
        have isNext : next ∈ lexemes code := by simp [split]
        have nextWidth := start_lt_stop isNext
        have behindOperator := (List.pairwise_append.mp amongEarlier).2.1
        have first := (List.pairwise_cons.mp behindOperator).1 next List.mem_cons_self
        have second := across next (by simp) lexeme List.mem_cons_self
        omega
  · rcases List.mem_cons.mp isRest with rfl | isLater
    · omega
    · have := (List.pairwise_cons.mp amongRest).1 operator isLater
      omega

/-- What a reported word of a text is, with the text before and behind it. -/
structure IsLeaf (code before word after : List Char) : Prop where
  token : ⟨.word, byteLength before, word⟩ ∈ lexemes code
  maximal : MaximalWord code before word after
  sounds : isSounding word = true
  oneLine : '\n' ∉ word
  unmarked : ∀ less c more, word = less ++ c :: more → escapesPaired less = true →
    c ∉ marks ∧ Text.isBlank c = false
  noOperand : ∀ operator ∈ lexemes code, operator.token.isOperator = true →
    operator.stop ≠ byteLength before

theorem exists_isLeaf {code : List Char} {lexeme : Lexeme}
    (member : lexeme ∈ leafLexemes {} (lexemes code)) :
    ∃ before after, IsLeaf code before lexeme.text after ∧ lexeme.start = byteLength before := by
  have isLexeme := (leafLexemes_sublist _ _).subset member
  obtain ⟨earlier, later, split, reported⟩ := exists_reports_of_mem member
  obtain ⟨isWord, sounds, notOperand, _⟩ := reports_after_iff.mp reported
  obtain ⟨before, after, alone⟩ :=
    (lexed_lexemesFrom 0 code).exists_standsAlone lexeme isLexeme isWord
  have place : lexeme.start = byteLength before := by
    rw [alone.place, Nat.zero_add]
  refine ⟨before, after, ?_, place⟩
  constructor
  case token =>
      rw [← place, ← isWord]
      exact isLexeme
  case maximal => exact alone.maximalWord
  case sounds => exact sounds
  case oneLine => exact alone.isWord.2.newline_not_mem
  case unmarked =>
      intro less c more whole paired
      have run := alone.isWord.2
      rw [whole] at run
      rcases run.isPlain_or_backslash paired with plain | rfl
      · obtain ⟨notBlank, _, noToken⟩ := isPlain_iff.mp plain
        exact ⟨ofChar?_eq_none_iff.mp noToken, notBlank⟩
      · decide
  case noOperand =>
      intro operator isMember isOperator touching
      apply notOperand
      exact behindOperator_of_stop_eq split isMember isOperator (touching.trans place.symm)

/-! ## Reported spans -/

theorem span_of_isLeaf {code before word after : List Char} (leaf : IsLeaf code before word after) :
    (OffsetIndex.ofText code).span ⟨byteLength before, byteLength before + byteLength word⟩ =
      ⟨before.length, before.length + word.length⟩ :=
  SourceText.span_of_append leaf.maximal.split rfl rfl

theorem leafSpans_eq_map_shift (code : List Char) (offset : Nat) :
    leafSpans code offset = (leafSpans code 0).map (·.shift offset) := by
  simp only [leafSpans, List.map_map]
  refine List.map_congr_left fun lexeme _ => ?_
  rw [Function.comp_apply, Span.shift_shift, Nat.zero_add]

/-- Between two reported spans there is a character. -/
theorem pairwise_leafSpans (code : List Char) (offset : Nat) :
    (leafSpans code offset).Pairwise fun earlier later => earlier.stop < later.start := by
  rw [leafSpans, List.pairwise_map]
  have ordered := ((tiled_lexemesFrom 0 code).pairwise).sublist (leafLexemes_sublist {} _)
  refine ordered.imp_of_mem ?_
  intro earlier later isEarlier isLater before
  have inEarlier := (leafLexemes_sublist _ _).subset isEarlier
  have inLater := (leafLexemes_sublist _ _).subset isLater
  have apart := stop_ne_start_of_words inEarlier inLater
    (sounding_of_mem_leafLexemes earlier isEarlier).1 (sounding_of_mem_leafLexemes later isLater).1
  have strict := SourceText.charOffset_lt (boundary_stop inEarlier) (boundary_start inLater)
    (by omega)
  exact Nat.add_lt_add_right strict offset

/-- The leaves of any text. They are reported with a character between them and move with the text;
each covers one word that is as long as it can be, sounds and stands behind no operator; and every
word that sounds, stands behind no operator and is in no group that is left out is reported. -/
theorem leaves_of_any_text (code : List Char) (offset : Nat) :
    leafSpans code offset = (leafSpans code 0).map (·.shift offset) ∧
      ((leafSpans code offset).Pairwise fun earlier later => earlier.stop < later.start) ∧
      (∀ span ∈ leafSpans code offset,
        offset ≤ span.start ∧ span.start < span.stop ∧ span.stop ≤ offset + code.length ∧
          ∃ before word after, IsLeaf code before word after ∧
            span = ⟨offset + before.length, offset + before.length + word.length⟩) ∧
      ∀ earlier lexeme later, lexemes code = earlier ++ lexeme :: later → lexeme.token = .word →
        isSounding lexeme.text = true → ¬ BehindOperator earlier lexeme → ¬ LeftOut earlier →
          ((OffsetIndex.ofText code).span lexeme.range).shift offset ∈ leafSpans code offset := by
  refine ⟨leafSpans_eq_map_shift code offset, pairwise_leafSpans code offset, ?_, ?_⟩
  · intro span member
    obtain ⟨first, nonempty, last⟩ := (coversWord_of_mem_leafSpans member).bounds
    refine ⟨first, nonempty, last, ?_⟩
    obtain ⟨lexeme, isLeaf, rfl⟩ := List.mem_map.mp member
    obtain ⟨before, after, leaf, place⟩ := exists_isLeaf isLeaf
    refine ⟨before, lexeme.text, after, leaf, ?_⟩
    rw [Lexeme.range, Lexeme.stop, place, span_of_isLeaf leaf]
    simp only [Span.shift, Span.mk.injEq]
    omega
  · intro earlier lexeme later split isWord sounds notOperand notLeftOut
    refine List.mem_map_of_mem ?_
    rw [split]
    apply mem_leafLexemes_of_reports
    exact reports_after_iff.mpr ⟨isWord, sounds, notOperand, notLeftOut⟩

/-- A text with an operand, an escaped quote, and groups that never close. -/
theorem leaves_of_any_text_unclosed :
    let code := "é*2 [c\\\"d ~ (e f".toList
    leafSpans code 3 = [⟨3, 4⟩, ⟨8, 12⟩] ∧
      ∃ before word after, IsLeaf code before word after ∧
        (⟨8, 12⟩ : Span) = ⟨3 + before.length, 3 + before.length + word.length⟩ := by
  intro code
  have leaves : leafSpans code 3 = [⟨3, 4⟩, ⟨8, 12⟩] := by decide +kernel
  obtain ⟨_, _, each, _⟩ := leaves_of_any_text code 3
  have member : (⟨8, 12⟩ : Span) ∈ leafSpans code 3 := by
    rw [leaves]
    decide
  exact ⟨leaves, (each _ member).2.2.2⟩

end PatternScript.Notation
