import PatternScript.Notation.Token
import PatternScript.Proofs.Source.Slices

/-!
Contract: how the lexemes of a notation text lie in it.

Lexemes stand in the text one behind the other, and each is the piece of the text that its range
says. A token that is a character on its own and is not escaped divides the text: the lexemes before
and behind it are those of the two parts.

Owns: paired escapes, the order of lexemes, their texts, and the division at a token.
Does not own: which lexemes are leaves.
-/

namespace PatternScript.Notation

open Text (byteLength)

/-- Every backslash has a character behind it that it escapes. -/
def escapesPaired : List Char → Bool
  | [] => true
  | ['\\'] => false
  | '\\' :: _ :: rest => escapesPaired rest
  | _ :: rest => escapesPaired rest

/-- What is left for a character once both cases of a backslash are taken. -/
theorem ne_backslash {c : Char} {rest : List Char} (notLast : c = '\\' → rest = [] → False)
    (notEscape : ∀ (head : Char) (tail : List Char), c = '\\' → rest = head :: tail → False) :
    c ≠ '\\' := by
  intro isBackslash
  cases rest with
  | nil => exact notLast isBackslash rfl
  | cons head tail => exact notEscape head tail isBackslash rfl

theorem escapesPaired_cons {c : Char} (plain : c ≠ '\\') (rest : List Char) :
    escapesPaired (c :: rest) = escapesPaired rest := by
  rw [escapesPaired] <;> simp [plain]

theorem escapesPaired_append {left : List Char} (paired : escapesPaired left = true)
    (right : List Char) : escapesPaired (left ++ right) = escapesPaired right := by
  fun_induction escapesPaired left with
  | case1 => rfl
  | case2 => contradiction
  | case3 c rest inductionHypothesis => exact inductionHypothesis paired
  | case4 c rest notLast notEscape inductionHypothesis =>
      rw [List.cons_append, escapesPaired_cons (ne_backslash notLast notEscape)]
      exact inductionHypothesis paired

/-- A token that is a character on its own is not a word; the character is neither blank nor a
backslash. -/
theorem ofChar?_eq_some {c : Char} {token : Token} (isToken : Token.ofChar? c = some token) :
    token ≠ .word ∧ Text.isBlank c = false ∧ c ≠ '\\' := by
  unfold Token.ofChar? at isToken
  split at isToken <;> simp at isToken <;> subst isToken <;> decide

/-! ## Where lexemes lie -/

/-- Lexemes stand in a text one behind the other, counted from the byte at which the text starts. -/
inductive Tiled : Nat → List Char → List Lexeme → Prop where
  | nil {start : Nat} {text : List Char} : Tiled start text []
  | cons {start : Nat} {gap rest : List Char} {lexeme : Lexeme} {more : List Lexeme}
      (place : lexeme.start = start + byteLength gap) (covers : lexeme.text ≠ [])
      (onward : Tiled lexeme.stop rest more) :
      Tiled start (gap ++ (lexeme.text ++ rest)) (lexeme :: more)

namespace Tiled

variable {start : Nat} {text : List Char} {list : List Lexeme}

/-- A lexeme at the start of a text. -/
theorem head {token : Token} {chars : List Char} (given : chars ≠ [])
    (onward : Tiled (start + byteLength chars) text list) :
    Tiled start (chars ++ text) (⟨token, start, chars⟩ :: list) :=
  @cons start [] text ⟨token, start, chars⟩ list rfl given onward

/-- A text may have more characters in front. -/
theorem prepend (chars : List Char) (tiled : Tiled (start + byteLength chars) text list) :
    Tiled start (chars ++ text) list := by
  cases tiled with
  | nil => exact .nil
  | @cons _ gap rest lexeme more place covers onward =>
      rw [← List.append_assoc]
      refine .cons ?_ covers onward
      rw [place, Text.byteLength_append, Nat.add_assoc]

/-- The text of each lexeme is a piece of the text. -/
theorem exists_append (tiled : Tiled start text list) {lexeme : Lexeme} (member : lexeme ∈ list) :
    ∃ before after, text = before ++ (lexeme.text ++ after) ∧
      lexeme.start = start + byteLength before := by
  induction tiled with
  | nil => simp at member
  | @cons start gap rest first more place covers onward inductionHypothesis =>
      rcases List.mem_cons.mp member with rfl | later
      · exact ⟨gap, rest, rfl, place⟩
      · obtain ⟨before, after, split, placed⟩ := inductionHypothesis later
        refine ⟨gap ++ (first.text ++ before), after, by simp [split], ?_⟩
        simp only [placed, Lexeme.stop, place, Text.byteLength_append]
        omega

theorem start_le (tiled : Tiled start text list) {lexeme : Lexeme} (member : lexeme ∈ list) :
    start ≤ lexeme.start := by
  obtain ⟨before, after, split, placed⟩ := tiled.exists_append member
  omega

theorem covers (tiled : Tiled start text list) {lexeme : Lexeme} (member : lexeme ∈ list) :
    lexeme.text ≠ [] := by
  induction tiled with
  | nil => simp at member
  | cons place covers onward inductionHypothesis =>
      rcases List.mem_cons.mp member with rfl | later
      · exact covers
      · exact inductionHypothesis later

theorem pairwise (tiled : Tiled start text list) :
    list.Pairwise fun earlier later => earlier.stop ≤ later.start := by
  induction tiled with
  | nil => exact .nil
  | cons place covers onward inductionHypothesis =>
      refine .cons (fun later member => ?_) inductionHypothesis
      exact onward.start_le member

end Tiled

/-! ## Division at a token -/

theorem lexemesFrom_nil (start : Nat) : lexemesFrom start [] = [] := rfl

theorem lexemesFrom_cons {c : Char} (plain : c ≠ '\\') (start : Nat) (rest : List Char) :
    lexemesFrom start (c :: rest) =
      if Text.isBlank c then lexemesFrom (start + c.utf8Size) rest
      else match Token.ofChar? c with
        | some token => ⟨token, start, [c]⟩ :: lexemesFrom (start + c.utf8Size) rest
        | none =>
            prependWord start (start + c.utf8Size) [c] (lexemesFrom (start + c.utf8Size) rest) := by
  conv => lhs; unfold lexemesFrom
  split
  case h_1 equal => cases equal
  case h_2 equal =>
      cases equal
      exact absurd rfl plain
  case h_3 equal =>
      cases equal
      exact absurd rfl plain
  case h_4 equal =>
      cases equal
      rfl

theorem lexemesFrom_escape {c : Char} (notNewline : c ≠ '\n') (start : Nat) (rest : List Char) :
    lexemesFrom start ('\\' :: c :: rest) =
      prependWord start (start + ('\\'.utf8Size + c.utf8Size)) ['\\', c]
        (lexemesFrom (start + ('\\'.utf8Size + c.utf8Size)) rest) := by
  conv => lhs; unfold lexemesFrom
  exact if_neg notNewline

theorem lexemesFrom_strayBackslash (start : Nat) (rest : List Char) :
    lexemesFrom start ('\\' :: '\n' :: rest) =
      ⟨.strayBackslash, start, ['\\']⟩ :: lexemesFrom (start + 2) rest := by
  conv => lhs; unfold lexemesFrom
  exact if_pos rfl

/-- Lexemes behind a token that is not a word are not reached by a word in front. -/
theorem prependWord_append {start next : Nat} {chars : List Char} {list behind : List Lexeme}
    {token : Lexeme} (isToken : token.token ≠ .word) :
    prependWord start next chars (list ++ token :: behind) =
      prependWord start next chars list ++ token :: behind := by
  cases list with
  | nil => simp [prependWord, isToken]
  | cons first more =>
      simp only [List.cons_append, prependWord]
      split <;> rfl

/-- A token behind paired escapes divides the lexemes. -/
theorem lexemesFrom_append {text : List Char} (paired : escapesPaired text = true) {c : Char}
    {token : Token} (isToken : Token.ofChar? c = some token) (start : Nat) (rest : List Char) :
    lexemesFrom start (text ++ c :: rest) =
      lexemesFrom start text ++ ⟨token, start + byteLength text, [c]⟩ ::
        lexemesFrom (start + byteLength text + c.utf8Size) rest := by
  obtain ⟨notWord, notBlank, plain⟩ := ofChar?_eq_some isToken
  fun_induction lexemesFrom start text with
  | case1 start => simp [lexemesFrom_cons plain, notBlank, isToken]
  | case2 => simp [escapesPaired] at paired
  | case3 start more inductionHypothesis =>
      rw [escapesPaired] at paired
      have size : byteLength ('\\' :: '\n' :: more) = 2 + byteLength more := by
        simp only [Text.byteLength_cons]
        rw [← Nat.add_assoc]
        rfl
      rw [size, ← Nat.add_assoc, List.cons_append, List.cons_append, lexemesFrom_strayBackslash,
        inductionHypothesis paired, List.cons_append]
  | case4 start d more notNewline next inductionHypothesis =>
      rw [escapesPaired] at paired
      have size : start + byteLength ('\\' :: d :: more) = next + byteLength more := by
        simp only [next, Text.byteLength_cons]
        omega
      rw [size, List.cons_append, List.cons_append, lexemesFrom_escape notNewline,
        inductionHypothesis paired, prependWord_append notWord]
  | case5 start d more notLast notEscape next isBlank inductionHypothesis =>
      have plainHead := ne_backslash notLast notEscape
      rw [escapesPaired_cons plainHead] at paired
      rw [List.cons_append, lexemesFrom_cons plainHead, if_pos isBlank, inductionHypothesis paired,
        Text.byteLength_cons, ← Nat.add_assoc]
  | case6 start d more notLast notEscape next isBlank other isOther inductionHypothesis =>
      have plainHead := ne_backslash notLast notEscape
      rw [escapesPaired_cons plainHead] at paired
      rw [List.cons_append, lexemesFrom_cons plainHead, if_neg isBlank, isOther,
        inductionHypothesis paired, Text.byteLength_cons, ← Nat.add_assoc, List.cons_append]
  | case7 start d more notLast notEscape next isBlank noToken inductionHypothesis =>
      have plainHead := ne_backslash notLast notEscape
      rw [escapesPaired_cons plainHead] at paired
      rw [List.cons_append, lexemesFrom_cons plainHead, if_neg isBlank, noToken,
        inductionHypothesis paired, Text.byteLength_cons, ← Nat.add_assoc,
        prependWord_append notWord]

/-! ## Lexemes of a part -/

namespace Lexeme

/-- The lexeme in a text with more bytes in front. -/
def shift (lexeme : Lexeme) (bytes : Nat) : Lexeme :=
  { lexeme with start := bytes + lexeme.start }

@[simp] theorem shift_token (lexeme : Lexeme) (bytes : Nat) :
    (lexeme.shift bytes).token = lexeme.token := rfl

@[simp] theorem shift_start (lexeme : Lexeme) (bytes : Nat) :
    (lexeme.shift bytes).start = bytes + lexeme.start := rfl

@[simp] theorem shift_text (lexeme : Lexeme) (bytes : Nat) :
    (lexeme.shift bytes).text = lexeme.text := rfl

@[simp] theorem shift_stop (lexeme : Lexeme) (bytes : Nat) :
    (lexeme.shift bytes).stop = bytes + lexeme.stop :=
  Nat.add_assoc bytes lexeme.start _

end Lexeme

theorem map_shift_prependWord (bytes start next : Nat) (chars : List Char) (list : List Lexeme) :
    (prependWord start next chars list).map (·.shift bytes) =
      prependWord (bytes + start) (bytes + next) chars (list.map (·.shift bytes)) := by
  cases list with
  | nil => rfl
  | cons first more =>
      simp only [prependWord, List.map_cons]
      split <;> simp_all [Lexeme.shift]

/-- The lexemes of a text depend on where it starts in their places only. -/
theorem lexemesFrom_shift (bytes start : Nat) (text : List Char) :
    lexemesFrom (bytes + start) text = (lexemesFrom start text).map (·.shift bytes) := by
  fun_induction lexemesFrom start text with
  | case1 => rfl
  | case2 => rfl
  | case3 start rest inductionHypothesis =>
      rw [lexemesFrom_strayBackslash, Nat.add_assoc, inductionHypothesis]
      rfl
  | case4 start c rest notNewline next inductionHypothesis =>
      rw [lexemesFrom_escape notNewline, map_shift_prependWord, ← inductionHypothesis]
      simp only [next, Nat.add_assoc]
  | case5 start c rest notLast notEscape next isBlank inductionHypothesis =>
      rw [lexemesFrom_cons (ne_backslash notLast notEscape), if_pos isBlank,
        ← inductionHypothesis, Nat.add_assoc]
  | case6 start c rest notLast notEscape next isBlank token isToken inductionHypothesis =>
      rw [lexemesFrom_cons (ne_backslash notLast notEscape), if_neg isBlank, isToken,
        List.map_cons, ← inductionHypothesis, Nat.add_assoc]
      rfl
  | case7 start c rest notLast notEscape next isBlank noToken inductionHypothesis =>
      rw [lexemesFrom_cons (ne_backslash notLast notEscape), if_neg isBlank, noToken,
        map_shift_prependWord, ← inductionHypothesis, Nat.add_assoc]

theorem lexemesFrom_eq_map (start : Nat) (text : List Char) :
    lexemesFrom start text = (lexemes text).map (·.shift start) :=
  lexemesFrom_shift start 0 text

end PatternScript.Notation
