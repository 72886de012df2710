import PatternScript.Proofs.Notation.Reported

/-!
Contract: the lexemes of a text are what a scanner takes from it, and they tile the text.

A scanner knows three classes of pieces: runs of blanks, which it skips, marks and words. At each place
it takes the longest piece of any class, and where no piece of any class starts it takes the one
character there as an error. A text is scanned in one way, from its start to its end. The tokens taken
are the lexemes of the text, errors are backslashes that escape nothing, and scanning starts afresh
behind a mark.

Owns: the classes of pieces, scanning by the longest match, and the tiling of a text.
Does not own: which tokens are leaves.
-/

namespace PatternScript.Notation

open Text (byteLength)

/-! ## Classes of pieces -/

/-- What a scanner takes at a place: a token, or a run of blanks, which has none. -/
structure Piece where
  token : Option Token
  start : Nat
  text : List Char
deriving DecidableEq, Repr

namespace Piece

/-- The byte just past the piece. -/
def stop (piece : Piece) : Nat :=
  piece.start + byteLength piece.text

/-- The lexeme that a piece is, unless it is skipped. -/
def lexeme? (piece : Piece) : Option Lexeme :=
  piece.token.map fun token => ⟨token, piece.start, piece.text⟩

end Piece

/-- The texts of each class. -/
inductive Matches : Option Token → List Char → Prop where
  | blanks {chars : List Char} (given : chars ≠ [])
      (blank : ∀ c ∈ chars, Text.isBlank c = true) : Matches none chars
  | mark {c : Char} {token : Token} (isToken : Token.ofChar? c = some token) :
      Matches (some token) [c]
  | word {chars : List Char} (isWord : IsWord chars) : Matches (some .word) chars

namespace Matches

variable {token other : Option Token} {c : Char} {chars rest : List Char}

theorem ne_nil (isMatch : Matches token chars) : chars ≠ [] := by
  cases isMatch with
  | blanks given _ => exact given
  | mark _ => exact List.cons_ne_nil _ _
  | word isWord => exact isWord.1

/-- A piece that starts with a blank is a run of blanks. -/
theorem of_blank (isMatch : Matches token (c :: rest)) (isBlank : Text.isBlank c = true) :
    token = none ∧ ∀ d ∈ c :: rest, Text.isBlank d = true := by
  cases isMatch with
  | blanks _ blank => exact ⟨rfl, blank⟩
  | mark isToken =>
      rw [(ofChar?_eq_some isToken).2.1] at isBlank
      cases isBlank
  | word isWord => exact absurd (.of_isWord isWord []) (BeginsWord.not_blank isBlank)

/-- A piece that starts with a mark is the mark. -/
theorem of_mark {mark : Token} (isMatch : Matches token (c :: rest))
    (isToken : Token.ofChar? c = some mark) : token = some mark ∧ rest = [] := by
  cases isMatch with
  | blanks _ blank =>
      have isBlank := blank c List.mem_cons_self
      rw [(ofChar?_eq_some isToken).2.1] at isBlank
      cases isBlank
  | mark isOther =>
      rw [isToken] at isOther
      exact ⟨isOther.symm, rfl⟩
  | word isWord => exact absurd (.of_isWord isWord []) (BeginsWord.not_mark isToken)

/-- A piece that starts with a word is a word. -/
theorem of_word (isMatch : Matches token chars) (begins : BeginsWord chars) :
    token = some .word ∧ IsWord chars := by
  cases isMatch with
  | blanks given blank =>
      obtain ⟨c, rest, rfl⟩ := List.exists_cons_of_ne_nil given
      exact absurd begins (BeginsWord.not_blank (blank c List.mem_cons_self))
  | mark isToken => exact absurd begins (BeginsWord.not_mark isToken)
  | word isWord => exact ⟨rfl, isWord⟩

/-- No text is of two classes. -/
theorem unique (isMatch : Matches token chars) (again : Matches other chars) : other = token := by
  cases isMatch with
  | blanks given blank =>
      obtain ⟨c, rest, rfl⟩ := List.exists_cons_of_ne_nil given
      exact (again.of_blank (blank c List.mem_cons_self)).1
  | mark isToken => exact (again.of_mark isToken).1
  | word isWord =>
      have begins := BeginsWord.of_isWord isWord []
      rw [List.append_nil] at begins
      exact (again.of_word begins).1

end Matches

/-! ## The longest match -/

/-- The longest piece of any class at the start of a text. -/
structure Longest (text : List Char) (token : Option Token) (chars rest : List Char) : Prop where
  split : text = chars ++ rest
  isMatch : Matches token chars
  longest : ∀ other piece behind, Matches other piece → text = piece ++ behind →
    piece.length ≤ chars.length

theorem Longest.unique {text chars rest chars' rest' : List Char} {token token' : Option Token}
    (found : Longest text token chars rest) (again : Longest text token' chars' rest') :
    token' = token ∧ chars' = chars ∧ rest' = rest := by
  have length : chars'.length = chars.length :=
    Nat.le_antisymm (found.longest _ _ _ again.isMatch again.split)
      (again.longest _ _ _ found.isMatch found.split)
  obtain ⟨rfl, rfl⟩ := List.append_inj (again.split.symm.trans found.split) length
  exact ⟨found.isMatch.unique again.isMatch, rfl, rfl⟩

theorem longest_blanks {run text : List Char} (given : run ≠ [])
    (blank : ∀ c ∈ run, Text.isBlank c = true)
    (stops : ∀ c rest, text = c :: rest → Text.isBlank c = false) :
    Longest (run ++ text) none run text where
  split := rfl
  isMatch := .blanks given blank
  longest := by
    intro other piece behind isMatch split
    obtain ⟨c, rest, rfl⟩ := List.exists_cons_of_ne_nil given
    obtain ⟨d, more, rfl⟩ := List.exists_cons_of_ne_nil isMatch.ne_nil
    obtain rfl : c = d := (List.cons.inj split).1
    have blanks := (isMatch.of_blank (blank c List.mem_cons_self)).2
    rcases List.append_eq_append_iff.mp split with ⟨extra, equal, beyond⟩ | ⟨extra, equal, _⟩
    · cases extra with
      | nil => simp [equal]
      | cons e others =>
          have isBlank := blanks e (by simp [equal])
          rw [stops e (others ++ behind) beyond] at isBlank
          cases isBlank
    · simp [equal]

theorem longest_mark {c : Char} {token : Token} (isToken : Token.ofChar? c = some token)
    (rest : List Char) : Longest (c :: rest) (some token) [c] rest where
  split := rfl
  isMatch := .mark isToken
  longest := by
    intro other piece behind isMatch split
    obtain ⟨d, more, rfl⟩ := List.exists_cons_of_ne_nil isMatch.ne_nil
    obtain rfl : c = d := (List.cons.inj split).1
    simp [(isMatch.of_mark isToken).2]

theorem longest_word {chars rest : List Char} (isWord : IsWord chars) (ends : ¬ BeginsWord rest) :
    Longest (chars ++ rest) (some .word) chars rest where
  split := rfl
  isMatch := .word isWord
  longest := by
    intro other piece behind isMatch split
    rcases List.append_eq_append_iff.mp split with ⟨extra, rfl, beyond⟩ | ⟨extra, rfl, _⟩
    · -- A longer piece would be a word too, and go on with a word behind the first one.
      by_cases nothing : extra = []
      · simp [nothing]
      · have longer := (isMatch.of_word (.of_isWord isWord extra)).2
        refine absurd ?_ ends
        rw [beyond]
        exact .of_isWord ⟨nothing, (longer.2.divide isWord.2.escapesPaired).2⟩ behind
    · simp

/-- Where a backslash starts no word, no piece starts. -/
theorem no_match_of_backslash {rest : List Char} (noWord : ¬ BeginsWord ('\\' :: rest))
    (token : Option Token) (piece behind : List Char) (isMatch : Matches token piece) :
    '\\' :: rest ≠ piece ++ behind := by
  intro split
  obtain ⟨c, more, rfl⟩ := List.exists_cons_of_ne_nil isMatch.ne_nil
  obtain rfl : '\\' = c := (List.cons.inj split).1
  cases isMatch with
  | blanks _ blank => exact absurd (blank '\\' List.mem_cons_self) (by decide)
  | mark isToken => cases isToken
  | word isWord =>
      rw [split] at noWord
      exact noWord (.of_isWord isWord behind)

/-! ## Scanning -/

/-- How a text whose first byte is `start` is scanned. -/
inductive Scanned : Nat → List Char → List Piece → Prop where
  | done {start : Nat} : Scanned start [] []
  | taken {start : Nat} {text chars rest : List Char} {token : Option Token} {pieces : List Piece}
      (found : Longest text token chars rest)
      (onward : Scanned (start + byteLength chars) rest pieces) :
      Scanned start text (⟨token, start, chars⟩ :: pieces)
  | unmatched {start : Nat} {c : Char} {rest : List Char} {pieces : List Piece}
      (nothing : ∀ token piece behind, Matches token piece → c :: rest ≠ piece ++ behind)
      (onward : Scanned (start + c.utf8Size) rest pieces) :
      Scanned start (c :: rest) (⟨some .strayBackslash, start, [c]⟩ :: pieces)

/-- Pieces stand one behind the other from one byte to another, and none is empty. -/
def Consecutive : Nat → List Piece → Nat → Prop
  | start, [], stop => start = stop
  | start, piece :: rest, stop =>
      piece.start = start ∧ start < piece.stop ∧ Consecutive piece.stop rest stop

namespace Scanned

variable {start : Nat} {text run : List Char} {pieces other : List Piece}

/-- A text is scanned in one way. -/
theorem unique (scanned : Scanned start text pieces) (again : Scanned start text other) :
    other = pieces := by
  induction scanned generalizing other with
  | done =>
      cases again with
      | done => rfl
      | taken found _ =>
          exact absurd (List.append_eq_nil_iff.mp found.split.symm).1 found.isMatch.ne_nil
  | taken found _ inductionHypothesis =>
      cases again with
      | done => exact absurd (List.append_eq_nil_iff.mp found.split.symm).1 found.isMatch.ne_nil
      | taken found' onward' =>
          obtain ⟨rfl, rfl, rfl⟩ := found.unique found'
          rw [inductionHypothesis onward']
      | unmatched nothing _ => exact absurd found.split (nothing _ _ _ found.isMatch)
  | unmatched nothing _ inductionHypothesis =>
      cases again with
      | taken found' _ => exact absurd found'.split (nothing _ _ _ found'.isMatch)
      | unmatched _ onward' => rw [inductionHypothesis onward']

theorem flatMap_text (scanned : Scanned start text pieces) : pieces.flatMap Piece.text = text := by
  induction scanned with
  | done => rfl
  | taken found _ inductionHypothesis =>
      rw [List.flatMap_cons, inductionHypothesis, ← found.split]
  | unmatched _ _ inductionHypothesis =>
      rw [List.flatMap_cons, inductionHypothesis]
      rfl

theorem consecutive (scanned : Scanned start text pieces) :
    Consecutive start pieces (start + byteLength text) := by
  induction scanned with
  | done => rfl
  | @taken start text chars rest token pieces found _ inductionHypothesis =>
      have covers : 0 < byteLength chars := by
        refine Nat.pos_of_ne_zero fun none => ?_
        exact found.isMatch.ne_nil (Text.eq_nil_of_byteLength_eq_zero none)
      rw [found.split, Text.byteLength_append, ← Nat.add_assoc]
      exact ⟨rfl, Nat.lt_add_of_pos_right covers, inductionHypothesis⟩
  | @unmatched start c rest pieces _ _ inductionHypothesis =>
      rw [Text.byteLength_cons, ← Nat.add_assoc]
      exact ⟨rfl, Nat.lt_add_of_pos_right c.utf8Size_pos, inductionHypothesis⟩

/-- What is skipped is blank. -/
theorem blank_of_skipped (scanned : Scanned start text pieces) :
    ∀ piece ∈ pieces, piece.token = none → ∀ c ∈ piece.text, Text.isBlank c = true := by
  induction scanned with
  | done => simp
  | taken found _ inductionHypothesis =>
      intro piece member skipped
      rcases List.mem_cons.mp member with rfl | later
      · obtain rfl := skipped
        cases found.isMatch with
        | blanks _ blank => exact blank
      · exact inductionHypothesis piece later skipped
  | unmatched _ _ inductionHypothesis =>
      intro piece member skipped
      rcases List.mem_cons.mp member with rfl | later
      · cases skipped
      · exact inductionHypothesis piece later skipped

/-- A run of blanks in front of a text that starts with none is skipped. -/
theorem behind_blanks (blank : ∀ c ∈ run, Text.isBlank c = true)
    (stops : ∀ c rest, text = c :: rest → Text.isBlank c = false)
    (scanned : Scanned (start + byteLength run) text pieces) :
    ∃ more, Scanned start (run ++ text) more ∧
      more.filterMap Piece.lexeme? = pieces.filterMap Piece.lexeme? := by
  by_cases nothing : run = []
  · subst nothing
    exact ⟨pieces, scanned, rfl⟩
  · exact ⟨⟨none, start, run⟩ :: pieces, .taken (longest_blanks nothing blank stops) scanned, rfl⟩

end Scanned

/-- What is read by the longest match is scanned, with the blanks that stand in front. -/
theorem Lexed.exists_scanned {next : Nat} {text : List Char} {list : List Lexeme}
    (lexed : Lexed next text list) :
    ∀ (start : Nat) (run : List Char), (∀ c ∈ run, Text.isBlank c = true) →
      start + byteLength run = next →
      ∃ pieces, Scanned start (run ++ text) pieces ∧ pieces.filterMap Piece.lexeme? = list := by
  induction lexed with
  | nil =>
      rintro start run blank rfl
      exact Scanned.behind_blanks blank (by simp) .done
  | @blank next c rest list isBlank _ inductionHypothesis =>
      -- The blank joins the run in front, which is taken as one piece.
      rintro start run blank rfl
      have longer : ∀ d ∈ run ++ [c], Text.isBlank d = true :=
        List.forall_mem_append.mpr ⟨blank, List.forall_mem_singleton.mpr isBlank⟩
      have joined := inductionHypothesis start (run ++ [c]) longer (by simp [Nat.add_assoc])
      rwa [List.append_assoc] at joined
  | @mark next c rest list token isToken _ inductionHypothesis =>
      rintro start run blank rfl
      obtain ⟨pieces, scanned, rfl⟩ := inductionHypothesis _ [] (by simp) rfl
      exact Scanned.behind_blanks blank (by rintro d more ⟨⟩; exact (ofChar?_eq_some isToken).2.1)
        (.taken (longest_mark isToken rest) scanned)
  | @lastBackslash next =>
      rintro start run blank rfl
      exact Scanned.behind_blanks blank (by rintro d more ⟨⟩; rfl)
        (.unmatched (no_match_of_backslash BeginsWord.not_lastBackslash) .done)
  | @lineBackslash next rest list _ inductionHypothesis =>
      -- The line feed behind the backslash starts a run of blanks of its own.
      rintro start run blank rfl
      obtain ⟨pieces, scanned, rfl⟩ := inductionHypothesis (start + byteLength run + 1) ['\n']
        (List.forall_mem_singleton.mpr rfl) rfl
      exact Scanned.behind_blanks blank (by rintro d more ⟨⟩; rfl)
        (.unmatched (no_match_of_backslash BeginsWord.not_lineBackslash) scanned)
  | @word next chars rest list isWord longest _ inductionHypothesis =>
      rintro start run blank rfl
      obtain ⟨pieces, scanned, rfl⟩ := inductionHypothesis _ [] (by simp) rfl
      refine Scanned.behind_blanks blank ?_ (.taken (longest_word isWord longest) scanned)
      intro c more split
      rw [Bool.eq_false_iff]
      intro isBlank
      have begins := BeginsWord.of_isWord isWord rest
      rw [split] at begins
      exact BeginsWord.not_blank isBlank begins

/-! ## Tiling -/

/-- Behind a mark at the end of a text, what follows is read as if it stood alone. -/
theorem lexemes_append_of_mark {text : List Char} {last : Lexeme} (member : last ∈ lexemes text)
    (notWord : last.token ≠ .word) (notStray : last.token ≠ .strayBackslash)
    (atEnd : last.stop = byteLength text) (more : List Char) :
    lexemes (text ++ more) = lexemes text ++ (lexemes more).map (·.shift (byteLength text)) := by
  obtain ⟨token, place, chars⟩ := last
  obtain ⟨before, after, rfl, (rfl : place = _), paired, taken⟩ :=
    (lexed_lexemesFrom 0 text).takenIn _ member
  cases taken with
  | @mark c _ _ isToken =>
      have nothing : byteLength after = 0 := by
        simp only [Lexeme.stop, Text.byteLength_append] at atEnd
        omega
      obtain rfl := Text.eq_nil_of_byteLength_eq_zero nothing
      have divided := lexemesFrom_append paired isToken 0
      have behind : 0 + byteLength before + c.utf8Size = byteLength (before ++ ([c] ++ [])) := by
        simp
      calc lexemes (before ++ ([c] ++ []) ++ more)
          = lexemes before ++ ⟨token, 0 + byteLength before, [c]⟩ ::
              lexemesFrom (byteLength (before ++ ([c] ++ []))) more := by
            rw [List.append_assoc, ← behind]
            exact divided more
        _ = lexemes (before ++ ([c] ++ [])) ++
              lexemesFrom (byteLength (before ++ ([c] ++ []))) more := by
            rw [lexemes, lexemes, List.append_nil, divided [], lexemesFrom_nil, List.append_assoc]
            rfl
        _ = _ := by rw [lexemesFrom_eq_map]
  | word _ _ => exact absurd rfl notWord
  | lastBackslash => exact absurd rfl notStray
  | lineBackslash => exact absurd rfl notStray

/-- An error is a backslash that ends the text or stands before a line feed. -/
theorem text_of_stray {text : List Char} {lexeme : Lexeme} (member : lexeme ∈ lexemes text)
    (isStray : lexeme.token = .strayBackslash) :
    ∃ before after, text = before ++ '\\' :: after ∧ lexeme.start = byteLength before ∧
      lexeme.text = ['\\'] ∧ (after = [] ∨ ∃ rest, after = '\n' :: rest) := by
  obtain ⟨token, place, chars⟩ := lexeme
  obtain ⟨before, after, split, (rfl : place = _), _, taken⟩ :=
    (lexed_lexemesFrom 0 text).takenIn _ member
  obtain rfl : token = .strayBackslash := isStray
  cases taken with
  | mark isToken => exact absurd isToken (ofChar?_ne_strayBackslash _)
  | lastBackslash => exact ⟨before, [], split, Nat.zero_add _, rfl, .inl rfl⟩
  | lineBackslash => exact ⟨before, _, split, Nat.zero_add _, rfl, .inr ⟨_, rfl⟩⟩

/-- The scanner tiles every text. There is one way to scan it by the longest match, which ends at the
end of the text; the runs of blanks, tokens and errors stand one behind the other and together are the
text; errors are backslashes at the end of the text or before a line feed; between two words stands
something else; and where the last token is a mark at the end, the tokens of a longer text are those of
the text followed by those of the rest. -/
theorem scanning_tiles (text : List Char) :
    (∃ pieces, Scanned 0 text pieces ∧ (∀ other, Scanned 0 text other → other = pieces) ∧
      pieces.filterMap Piece.lexeme? = lexemes text ∧
      Consecutive 0 pieces (byteLength text) ∧ pieces.flatMap Piece.text = text ∧
      ∀ piece ∈ pieces, piece.token = none → ∀ c ∈ piece.text, Text.isBlank c = true) ∧
    (∀ lexeme ∈ lexemes text, lexeme.token = .strayBackslash →
      ∃ before after, text = before ++ '\\' :: after ∧ lexeme.start = byteLength before ∧
        lexeme.text = ['\\'] ∧ (after = [] ∨ ∃ rest, after = '\n' :: rest)) ∧
    ((lexemes text).Pairwise fun earlier later =>
      earlier.token = .word → later.token = .word → earlier.stop < later.start) ∧
    (∀ last more, (lexemes text).getLast? = some last →
      last.token ≠ .word → last.token ≠ .strayBackslash → last.stop = byteLength text →
        lexemes (text ++ more) =
          lexemes text ++ (lexemes more).map (·.shift (byteLength text))) := by
  refine ⟨?_, fun _ => text_of_stray, ?_, ?_⟩
  · obtain ⟨pieces, scanned, tokens⟩ :=
      (lexed_lexemesFrom 0 text).exists_scanned 0 [] (by simp) rfl
    have covered := scanned.consecutive
    rw [Nat.zero_add] at covered
    exact ⟨pieces, scanned, fun _ => scanned.unique, tokens, covered, scanned.flatMap_text,
      scanned.blank_of_skipped⟩
  · refine (tiled_lexemesFrom 0 text).pairwise.imp_of_mem ?_
    intro earlier later isEarlier isLater ordered word word'
    exact Nat.lt_of_le_of_ne ordered (stop_ne_start_of_words isEarlier isLater word word')
  · intro last more isLast notWord notStray atEnd
    exact lexemes_append_of_mark (List.mem_of_getLast? isLast) notWord notStray atEnd more

/-- A word with an escaped quote, a backslash before a line feed and a bracket at the end, with a rest
that ends in an error. -/
theorem scanning_tiles_bracket :
    lexemes ['a', '\\', '"', '\\', '\n', '['] =
        [⟨.word, 0, ['a', '\\', '"']⟩, ⟨.strayBackslash, 3, ['\\']⟩, ⟨.openSequence, 5, ['[']⟩] ∧
      (∃ before after, ['a', '\\', '"', '\\', '\n', '['] = before ++ '\\' :: after ∧
        3 = byteLength before ∧ (after = [] ∨ ∃ rest, after = '\n' :: rest)) ∧
      lexemes (['a', '\\', '"', '\\', '\n', '['] ++ ['b', '\\']) =
        lexemes ['a', '\\', '"', '\\', '\n', '['] ++
          [⟨.word, 6, ['b']⟩, ⟨.strayBackslash, 7, ['\\']⟩] := by
  have read : lexemes ['a', '\\', '"', '\\', '\n', '['] =
      [⟨.word, 0, ['a', '\\', '"']⟩, ⟨.strayBackslash, 3, ['\\']⟩, ⟨.openSequence, 5, ['[']⟩] := by
    decide
  obtain ⟨_, strays, _, afresh⟩ := scanning_tiles ['a', '\\', '"', '\\', '\n', '[']
  obtain ⟨before, after, split, place, _, ends⟩ :=
    strays ⟨.strayBackslash, 3, ['\\']⟩ (by simp [read]) rfl
  refine ⟨read, ⟨before, after, split, place, ends⟩, ?_⟩
  exact afresh ⟨.openSequence, 5, ['[']⟩ ['b', '\\'] (by simp [read]) (by decide) (by decide)
    (by decide)

end PatternScript.Notation
