import Mathlib.Data.List.Forall2
import PatternScript.Proofs.Notation.Leaves

/-!
Contract: a notation text has the same leaves in brackets and in double quotes.

If every backslash of the text escapes a character, the closing delimiter is a token of its own and
adds no leaf. Otherwise the last backslash takes the closing delimiter into the last word. That word
then differs in its last character, but it has the same length in both texts, and as it holds a
backslash it sounds in both.

Owns: lexemes that are alike but for a delimiter, and the equality of the leaves.
Does not own: the leaves of a text without delimiters.
-/

namespace PatternScript

open Text (byteLength)

/-- Texts whose characters take the same room character by character have the same index. -/
theorem OffsetIndex.ofText_congr {text text' : List Char}
    (sameWidths : List.Forall₂
      (fun c c' => c.utf8Size = c'.utf8Size ∧ (c.toNat < 0x80 ↔ c'.toNat < 0x80)) text text') :
    ofText text = ofText text' := by
  have same : byteLength text = byteLength text' ∧ isAscii text = isAscii text' ∧
      ∀ first, startsFrom first text = startsFrom first text' := by
    induction sameWidths with
    | nil => exact ⟨rfl, rfl, fun _ => rfl⟩
    | cons width _ inductionHypothesis =>
        obtain ⟨bytes, ascii, starts⟩ := inductionHypothesis
        refine ⟨?_, ?_, fun first => ?_⟩
        · rw [Text.byteLength_cons, Text.byteLength_cons, width.1, bytes]
        · simp only [isAscii, List.all_cons, width.2] at ascii ⊢
          rw [ascii]
        · rw [startsFrom, startsFrom, width.1, starts]
  obtain ⟨bytes, ascii, starts⟩ := same
  rw [ofText, ofText, bytes, ascii, starts]

namespace Notation

/-- Two lexemes of one class in one place, with the same text or with texts of one length that both
hold a backslash. -/
structure Lexeme.Alike (left right : Lexeme) : Prop where
  token : left.token = right.token
  start : left.start = right.start
  bytes : byteLength left.text = byteLength right.text
  text : left.text = right.text ∨ ('\\' ∈ left.text ∧ '\\' ∈ right.text)

namespace Lexeme.Alike

variable {left right : Lexeme}

theorem refl (lexeme : Lexeme) : lexeme.Alike lexeme :=
  ⟨rfl, rfl, rfl, .inl rfl⟩

theorem stop (alike : left.Alike right) : left.stop = right.stop := by
  rw [Lexeme.stop, Lexeme.stop, alike.start, alike.bytes]

theorem range (alike : left.Alike right) : left.range = right.range := by
  rw [Lexeme.range, Lexeme.range, alike.start, alike.stop]

theorem isSounding (alike : left.Alike right) :
    Notation.isSounding left.text = Notation.isSounding right.text := by
  have sounds : ∀ {word : List Char}, '\\' ∈ word → Notation.isSounding word = true := by
    intro word escapes
    have notRest : word ≠ ['~'] ∧ word ≠ ['-'] := by
      constructor <;> rintro rfl <;> simp at escapes
    simp only [Notation.isSounding, Bool.and_eq_true, bne_iff_ne, Bool.not_eq_true',
      List.all_eq_false]
    exact ⟨notRest, '\\', escapes, by decide⟩
  rcases alike.text with same | ⟨escapes, escapes'⟩
  · rw [same]
  · rw [sounds escapes, sounds escapes']

end Lexeme.Alike

theorem alike_prependWord {list list' : List Lexeme} (start next : Nat) (chars : List Char)
    (alike : List.Forall₂ Lexeme.Alike list list') :
    List.Forall₂ Lexeme.Alike (prependWord start next chars list)
      (prependWord start next chars list') := by
  cases alike with
  | nil => exact .cons (.refl _) .nil
  | @cons lexeme lexeme' more more' atHead behind =>
      rw [prependWord, prependWord, atHead.token, atHead.start]
      by_cases joined : lexeme'.token = .word ∧ lexeme'.start = next
      · rw [if_pos joined, if_pos joined]
        refine .cons ⟨rfl, rfl, ?_, ?_⟩ behind
        · simp only [Text.byteLength_append, atHead.bytes]
        · rcases atHead.text with same | ⟨escapes, escapes'⟩
          · exact .inl (congrArg (chars ++ ·) same)
          · exact .inr ⟨List.mem_append_right _ escapes, List.mem_append_right _ escapes'⟩
      · rw [if_neg joined, if_neg joined]
        exact .cons (.refl _) (.cons atHead behind)

/-- A backslash without a partner stands at the end. -/
theorem exists_append_backslash {text : List Char} (unpaired : escapesPaired text = false) :
    ∃ before, text = before ++ ['\\'] ∧ escapesPaired before = true := by
  fun_induction escapesPaired text with
  | case1 => contradiction
  | case2 => exact ⟨[], rfl, rfl⟩
  | case3 c rest inductionHypothesis =>
      obtain ⟨before, rfl, paired⟩ := inductionHypothesis unpaired
      exact ⟨'\\' :: c :: before, rfl, paired⟩
  | case4 c rest notLast notEscape inductionHypothesis =>
      obtain ⟨before, rfl, paired⟩ := inductionHypothesis unpaired
      refine ⟨c :: before, rfl, ?_⟩
      rw [escapesPaired_cons (ne_backslash notLast notEscape)]
      exact paired

/-- The character that the last backslash of a text escapes makes no difference to the lexemes but in
the text of the last word. -/
theorem alike_lexemesFrom_escape {before : List Char} (paired : escapesPaired before = true)
    {c c' : Char} (notNewline : c ≠ '\n') (notNewline' : c' ≠ '\n') (width : c.utf8Size = c'.utf8Size)
    (start : Nat) :
    List.Forall₂ Lexeme.Alike (lexemesFrom start (before ++ ['\\', c]))
      (lexemesFrom start (before ++ ['\\', c'])) := by
  fun_induction lexemesFrom start before with
  | case1 start =>
      rw [List.nil_append, List.nil_append, lexemesFrom_escape notNewline,
        lexemesFrom_escape notNewline', lexemesFrom_nil, lexemesFrom_nil]
      refine .cons ⟨rfl, rfl, ?_, .inr ⟨by simp, by simp⟩⟩ .nil
      simp only [Text.byteLength_cons, width]
  | case2 => simp [escapesPaired] at paired
  | case3 start rest inductionHypothesis =>
      rw [escapesPaired] at paired
      simp only [List.cons_append, lexemesFrom_strayBackslash]
      exact .cons (.refl _) (inductionHypothesis paired)
  | case4 start d rest notNewlineHead next inductionHypothesis =>
      rw [escapesPaired] at paired
      simp only [List.cons_append, lexemesFrom_escape notNewlineHead]
      exact alike_prependWord _ _ _ (inductionHypothesis paired)
  | case5 start d rest notLast notEscape next isBlank inductionHypothesis =>
      have plain := ne_backslash notLast notEscape
      rw [escapesPaired_cons plain] at paired
      simp only [List.cons_append, lexemesFrom_cons plain, if_pos isBlank]
      exact inductionHypothesis paired
  | case6 start d rest notLast notEscape next isBlank token isToken inductionHypothesis =>
      have plain := ne_backslash notLast notEscape
      rw [escapesPaired_cons plain] at paired
      simp only [List.cons_append, lexemesFrom_cons plain, if_neg isBlank, isToken]
      exact .cons (.refl _) (inductionHypothesis paired)
  | case7 start d rest notLast notEscape next isBlank noToken inductionHypothesis =>
      have plain := ne_backslash notLast notEscape
      rw [escapesPaired_cons plain] at paired
      simp only [List.cons_append, lexemesFrom_cons plain, if_neg isBlank, noToken]
      exact alike_prependWord _ _ _ (inductionHypothesis paired)

theorem alike_leafLexemes {list list' : List Lexeme} (alike : List.Forall₂ Lexeme.Alike list list')
    (standing : Standing) :
    List.Forall₂ Lexeme.Alike (leafLexemes standing list) (leafLexemes standing list') := by
  induction alike generalizing standing with
  | nil => exact .nil
  | cons atHead _ inductionHypothesis =>
      rw [leafLexemes, leafLexemes, atHead.token, atHead.start, atHead.stop, atHead.isSounding]
      split
      · exact inductionHypothesis _
      · simp only
        split
        · exact inductionHypothesis _
        · split
          · exact inductionHypothesis _
          · split
            · exact .cons atHead (inductionHypothesis _)
            · exact inductionHypothesis _

theorem map_span_of_alike {list list' : List Lexeme} (alike : List.Forall₂ Lexeme.Alike list list')
    (index : OffsetIndex) (offset : Nat) :
    list.map (fun lexeme => (index.span lexeme.range).shift offset) =
      list'.map fun lexeme => (index.span lexeme.range).shift offset := by
  induction alike with
  | nil => rfl
  | cons atHead _ inductionHypothesis =>
      rw [List.map_cons, List.map_cons, atHead.range, inductionHypothesis]

/-- A text has the same leaves in brackets and in double quotes, whatever it is. -/
theorem leafSpans_bracketed (text : List Char) (offset : Nat) :
    leafSpans ('[' :: text ++ [']']) offset = leafSpans ('"' :: text ++ ['"']) offset := by
  cases paired : escapesPaired text with
  | true =>
      rw [List.cons_append, List.cons_append, leafSpans_quoted paired]
      exact leafSpans_delimited rfl rfl (by decide) rfl paired offset
  | false =>
      obtain ⟨before, rfl, pairedBefore⟩ := exists_append_backslash paired
      have index : OffsetIndex.ofText ('[' :: (before ++ ['\\']) ++ [']']) =
          OffsetIndex.ofText ('"' :: (before ++ ['\\']) ++ ['"']) := by
        apply OffsetIndex.ofText_congr
        refine .cons (by decide) (List.rel_append (List.forall₂_same.mpr ?_) (.cons (by decide) .nil))
        exact fun c _ => ⟨rfl, Iff.rfl⟩
      have leaves := alike_leafLexemes (@alike_lexemesFrom_escape before pairedBefore ']' '"'
        (by decide) (by decide) rfl 1) {}
      have joined : ∀ closing : Char, before ++ ['\\'] ++ [closing] = before ++ ['\\', closing] := by
        simp
      simp only [leafSpans, index]
      rw [List.cons_append, List.cons_append, joined, joined,
        leafLexemes_token rfl (by decide) rfl, leafLexemes_token rfl (by decide) rfl]
      exact map_span_of_alike leaves _ offset

end Notation

end PatternScript
