import PatternScript.Notation.Leaf
import PatternScript.Proofs.Notation.Words
import PatternScript.Proofs.Source.Offsets

/-!
Contract: the spans of the leaves of a notation text.

A leaf is one whole word that sounds. A text that is read inside delimiters has the leaves of the
text itself, and the leaves of a quoted region are words of the text around it. The spans are
reported in the order of the text, and no two of them overlap.

Owns: what a reported span covers, and the order of the spans.
Does not own: where notation stands in a program.
-/

namespace PatternScript.Notation

open Text (byteLength)

/-- A span covers one whole sounding word of a text whose first character has the offset
`origin`. -/
def CoversWord (text : List Char) (origin : Nat) (span : Span) : Prop :=
  ∃ lexeme ∈ lexemes text, lexeme.token = .word ∧ isSounding lexeme.text = true ∧
    span = ((OffsetIndex.ofText text).span lexeme.range).shift origin

/-! ## Leaves of a text -/

theorem leafLexemes_sublist (standing : Standing) (list : List Lexeme) :
    (leafLexemes standing list).Sublist list := by
  fun_induction leafLexemes standing list with
  | case1 => exact .slnil
  | case5 => exact .cons_cons _ ‹_›
  | _ => exact .cons _ ‹_›

theorem sounding_of_mem_leafLexemes {standing : Standing} {list : List Lexeme} :
    ∀ lexeme ∈ leafLexemes standing list,
      lexeme.token = .word ∧ isSounding lexeme.text = true := by
  fun_induction leafLexemes standing list with
  | case1 => simp
  | case5 standing first rest _ isOperand _ _ leaf inductionHypothesis =>
      intro lexeme member
      rcases List.mem_cons.mp member with rfl | later
      · exact ⟨leaf.1, leaf.2.2⟩
      · exact inductionHypothesis lexeme later
  | _ => assumption

theorem coversWord_of_mem_leafSpans {text : List Char} {origin : Nat} {span : Span}
    (member : span ∈ leafSpans text origin) : CoversWord text origin span := by
  obtain ⟨lexeme, isLeaf, rfl⟩ := List.mem_map.mp member
  obtain ⟨isWord, sounds⟩ := sounding_of_mem_leafLexemes lexeme isLeaf
  exact ⟨lexeme, (leafLexemes_sublist _ _).subset isLeaf, isWord, sounds, rfl⟩

/-- Spans stand one behind the other. -/
def InOrder (spans : List Span) : Prop :=
  spans.Pairwise fun earlier later => earlier.stop ≤ later.start

theorem inOrder_leafSpans (text : List Char) (origin : Nat) : InOrder (leafSpans text origin) := by
  refine List.pairwise_map.mpr ?_
  have ordered := ((tiled_lexemesFrom 0 text).pairwise).sublist (leafLexemes_sublist {} _)
  refine ordered.imp fun before => ?_
  exact Nat.add_le_add_right (OffsetIndex.charOffset_mono _ before) origin

/-! ## Words of a part of a text -/

/-- The span of a lexeme of a part of a text, counted in the whole text. -/
theorem span_of_part {part before after : List Char} {lexeme : Lexeme}
    (member : lexeme ∈ lexemes part) :
    (OffsetIndex.ofText (before ++ (part ++ after))).span
        (lexeme.shift (byteLength before)).range =
      ((OffsetIndex.ofText part).span lexeme.range).shift before.length := by
  obtain ⟨left, right, split, place⟩ := (tiled_lexemesFrom 0 part).exists_append member
  rw [Nat.zero_add] at place
  have inPart := SourceText.span_of_append split place.symm rfl
  have whole : before ++ (part ++ after) = (before ++ left) ++ (lexeme.text ++ (right ++ after)) := by
    simp [split]
  have inWhole := @SourceText.span_of_append _ _ _ _ (byteLength before + lexeme.start) _ whole
    (by rw [Text.byteLength_append, place]) rfl
  simp only [SourceText.span, SourceText.ofChars] at inPart inWhole
  simp only [Lexeme.range, Lexeme.shift, Lexeme.stop] at *
  rw [inPart, inWhole]
  simp [Span.shift, Nat.add_comm, Nat.add_assoc]

section Delimited

variable {opening closing : Char} {openingToken closingToken : Token}

/-- The lexemes of a text with a part between two tokens. -/
theorem lexemes_delimited (opens : Token.ofChar? opening = some openingToken)
    (closes : Token.ofChar? closing = some closingToken) {before part after : List Char}
    (paired : escapesPaired before = true) (pairedPart : escapesPaired part = true) :
    lexemes (before ++ opening :: (part ++ closing :: after)) =
      lexemes before ++ ⟨openingToken, byteLength before, [opening]⟩ ::
        (lexemesFrom (byteLength before + opening.utf8Size) part ++
          ⟨closingToken, byteLength before + opening.utf8Size + byteLength part, [closing]⟩ ::
            lexemesFrom (byteLength before + opening.utf8Size + byteLength part +
              closing.utf8Size) after) := by
  rw [lexemes, lexemesFrom_append paired opens, lexemesFrom_append pairedPart closes, Nat.zero_add]
  rfl

theorem lexemes_between (opens : Token.ofChar? opening = some openingToken)
    (closes : Token.ofChar? closing = some closingToken) {text : List Char}
    (paired : escapesPaired text = true) :
    lexemes (opening :: (text ++ [closing])) =
      ⟨openingToken, 0, [opening]⟩ :: (lexemesFrom opening.utf8Size text ++
        [⟨closingToken, opening.utf8Size + byteLength text, [closing]⟩]) := by
  simpa [lexemes, lexemesFrom_nil] using
    @lexemes_delimited _ _ _ _ opens closes [] text [] rfl paired

/-- A lexeme that is not a word at the end adds no leaf. -/
theorem leafLexemes_append_token {token : Lexeme} (isToken : token.token ≠ .word)
    (standing : Standing) (list : List Lexeme) :
    leafLexemes standing (list ++ [token]) = leafLexemes standing list := by
  induction list generalizing standing with
  | nil => simp [leafLexemes, isToken]
  | cons lexeme rest inductionHypothesis =>
      simp only [List.cons_append, leafLexemes, inductionHypothesis]

/-- The leaves do not depend on where the text starts. -/
theorem leafLexemes_map_shift (bytes : Nat) (standing : Standing) (list : List Lexeme) :
    leafLexemes { standing with operatorStop := standing.operatorStop.map (bytes + ·) }
        (list.map (·.shift bytes)) =
      (leafLexemes standing list).map (·.shift bytes) := by
  induction list generalizing standing with
  | nil => rfl
  | cons lexeme rest inductionHypothesis =>
      have operand : (standing.operatorStop.map (bytes + ·) == some (bytes + lexeme.start)) =
          (standing.operatorStop == some lexeme.start) := by
        cases standing.operatorStop with
        | none => rfl
        | some stop => exact Bool.eq_iff_iff.mpr (by simp)
      have inGroup := fun depth => inductionHypothesis { standing with skipDepth := depth }
      have behindOperator := inductionHypothesis { operatorStop := some lexeme.stop }
      have onward := inductionHypothesis {}
      have leftOut := inductionHypothesis { skipDepth := 1 }
      simp only [Option.map_some, Option.map_none] at behindOperator onward leftOut
      simp only [List.map_cons, leafLexemes, operand, Lexeme.shift_token, Lexeme.shift_start,
        Lexeme.shift_stop, Lexeme.shift_text, behindOperator, onward, leftOut]
      split
      · exact inGroup (skipLexeme standing.skipDepth lexeme.token)
      · split
        · rfl
        · split
          · rfl
          · split <;> rfl

/-- A token in front that neither opens a euclidean rhythm nor takes an operand adds no leaf. -/
theorem leafLexemes_token {opening : Char} {token : Token}
    (opens : Token.ofChar? opening = some token) (notEuclid : token ≠ .openEuclid)
    (notOperator : token.isOperator = false) (text : List Char) :
    leafLexemes {} (lexemes (opening :: text)) =
      leafLexemes {} (lexemesFrom opening.utf8Size text) := by
  obtain ⟨notWord, notBlank, plain⟩ := ofChar?_eq_some opens
  rw [lexemes, lexemesFrom_cons plain, Nat.zero_add]
  simp [notBlank, opens, leafLexemes, notEuclid, notOperator, notWord]

/-- A token in front moves the leaves by one character, whatever the text is. -/
theorem leafSpans_opened (opens : Token.ofChar? opening = some openingToken)
    (notEuclid : openingToken ≠ .openEuclid) (notOperator : openingToken.isOperator = false)
    (text : List Char) (origin : Nat) :
    leafSpans (opening :: text) origin = leafSpans text (origin + 1) := by
  have leaves : leafLexemes {} (lexemes (opening :: text)) =
      (leafLexemes {} (lexemes text)).map (·.shift opening.utf8Size) := by
    rw [leafLexemes_token opens notEuclid notOperator, lexemesFrom_eq_map]
    exact leafLexemes_map_shift opening.utf8Size {} (lexemes text)
  simp only [leafSpans, leaves, List.map_map]
  refine List.map_congr_left fun lexeme member => ?_
  have isLexeme := (leafLexemes_sublist _ _).subset member
  have placed := @span_of_part text [opening] [] lexeme isLexeme
  simp only [Text.byteLength_cons, Text.byteLength_nil, Nat.add_zero, List.append_nil,
    List.singleton_append] at placed
  rw [Function.comp_apply, placed, Span.shift_shift, List.length_singleton, Nat.add_comm]

/-- A token behind a text with paired escapes adds no leaf. -/
theorem leafSpans_closed (closes : Token.ofChar? closing = some closingToken) {text : List Char}
    (paired : escapesPaired text = true) (origin : Nat) :
    leafSpans (text ++ [closing]) origin = leafSpans text origin := by
  have leaves : leafLexemes {} (lexemes (text ++ [closing])) = leafLexemes {} (lexemes text) := by
    rw [lexemes, lexemesFrom_append paired closes, lexemesFrom_nil]
    exact leafLexemes_append_token (ofChar?_eq_some closes).1 {} (lexemes text)
  simp only [leafSpans, leaves]
  refine List.map_congr_left fun lexeme member => ?_
  have isLexeme := (leafLexemes_sublist _ _).subset member
  have placed := @span_of_part text [] [closing] lexeme isLexeme
  simp only [Text.byteLength_nil, List.nil_append, Lexeme.shift, Nat.zero_add] at placed
  rw [placed, Span.shift_shift, List.length_nil, Nat.zero_add]

/-- A text between two tokens has the leaves of the text itself. -/
theorem leafSpans_delimited (opens : Token.ofChar? opening = some openingToken)
    (closes : Token.ofChar? closing = some closingToken) (notEuclid : openingToken ≠ .openEuclid)
    (notOperator : openingToken.isOperator = false) {text : List Char}
    (paired : escapesPaired text = true) (origin : Nat) :
    leafSpans (opening :: (text ++ [closing])) origin = leafSpans text (origin + 1) := by
  rw [leafSpans_opened opens notEuclid notOperator, leafSpans_closed closes paired]

theorem leafSpans_quoted {text : List Char} (paired : escapesPaired text = true) (origin : Nat) :
    leafSpans ('"' :: (text ++ ['"'])) origin = leafSpans text (origin + 1) :=
  @leafSpans_delimited '"' '"' .quote .quote rfl rfl (by decide) rfl text paired origin

/-- The words of a text between two tokens are words of every text around it. -/
theorem CoversWord.of_part (opens : Token.ofChar? opening = some openingToken)
    (closes : Token.ofChar? closing = some closingToken) {before part after : List Char}
    (paired : escapesPaired before = true) (pairedPart : escapesPaired part = true)
    {origin : Nat} {span : Span} (covers : CoversWord part (origin + before.length + 1) span) :
    CoversWord (before ++ opening :: (part ++ closing :: after)) origin span := by
  obtain ⟨lexeme, member, isWord, sounds, rfl⟩ := covers
  refine ⟨lexeme.shift (byteLength (before ++ [opening])), ?_, isWord, sounds, ?_⟩
  · rw [lexemes_delimited opens closes paired pairedPart, lexemesFrom_eq_map]
    refine List.mem_append_right _ (List.mem_cons_of_mem _ (List.mem_append_left _ ?_))
    refine List.mem_map.mpr ⟨lexeme, member, ?_⟩
    simp [Text.byteLength_append]
  · have placed := @span_of_part part (before ++ [opening]) (closing :: after) lexeme member
    rw [List.append_assoc, List.singleton_append] at placed
    rw [placed, Span.shift_shift, List.length_append, List.length_singleton, Nat.add_assoc,
      Nat.add_comm]

end Delimited

/-! ## Quoted regions -/

/-- The elements of a list two by two are related as the elements are. -/
theorem pairwise_pairUp {α : Type} {relation : α → α → Prop} {list : List α}
    (ordered : list.Pairwise relation) :
    (∀ pair ∈ pairUp list, pair.1 ∈ list ∧ pair.2 ∈ list ∧ relation pair.1 pair.2) ∧
      (pairUp list).Pairwise fun left right => relation left.2 right.1 := by
  fun_induction pairUp list with
  | case1 first second rest inductionHypothesis =>
      rw [List.pairwise_cons, List.pairwise_cons] at ordered
      obtain ⟨each, apart⟩ := inductionHypothesis ordered.2.2
      refine ⟨?_, .cons ?_ apart⟩
      · intro pair member
        rcases List.mem_cons.mp member with rfl | later
        · exact ⟨by simp, by simp, ordered.1 second List.mem_cons_self⟩
        · obtain ⟨inRest, inRest', related⟩ := each pair later
          exact ⟨by simp [inRest], by simp [inRest'], related⟩
      · intro pair member
        exact ordered.2.1 pair.1 (each pair member).1
  | case2 => simp

/-- A quoted region is a part of the text between two quotes that are not escaped. -/
theorem exists_append_of_quotedRange {code : List Char} {region : ByteRange}
    (member : region ∈ quotedRanges code) :
    ∃ before part after, code = before ++ '"' :: (part ++ '"' :: after) ∧
      escapesPaired before = true ∧ escapesPaired part = true ∧
      region.start = byteLength before ∧
      Text.slice code region = '"' :: (part ++ ['"']) ∧
      region.stop = region.start + byteLength ('"' :: (part ++ ['"'])) := by
  obtain ⟨⟨opening, closing⟩, isPair, rfl⟩ := List.mem_map.mp member
  have ordered := ((tiled_lexemesFrom 0 code).pairwise).filter
    (fun lexeme => decide (lexeme.token = .quote))
  obtain ⟨inList, inList', apart⟩ := (pairwise_pairUp ordered).1 _ isPair
  simp only [List.mem_filter, decide_eq_true_eq] at inList inList'
  obtain ⟨before, behind, split, paired, opens⟩ :=
    (lexed_lexemesFrom 0 code).isQuote opening inList.1 inList.2
  obtain ⟨longer, after, split', paired', closes⟩ :=
    (lexed_lexemesFrom 0 code).isQuote closing inList'.1 inList'.2
  rw [Nat.zero_add] at opens closes
  subst opens closes
  -- The closing quote is behind the opening one, so the text before it is longer.
  have behindOpening : byteLength before + 1 ≤ byteLength longer := apart
  obtain ⟨part, rfl, rfl⟩ : ∃ part, longer = before ++ '"' :: part ∧
      behind = part ++ '"' :: after := by
    have same : before ++ '"' :: behind = longer ++ '"' :: after := split.symm.trans split'
    rcases List.append_eq_append_iff.mp same with ⟨extra, rfl, rest⟩ | ⟨extra, rfl, _⟩
    · cases extra with
      | nil =>
          rw [List.append_nil] at behindOpening
          omega
      | cons c part =>
          simp only [List.cons_append, List.cons.injEq] at rest
          obtain ⟨rfl, rfl⟩ := rest
          exact ⟨part, rfl, rfl⟩
    · simp only [Text.byteLength_append] at behindOpening
      omega
  rw [escapesPaired_append paired, escapesPaired_cons (by decide)] at paired'
  have stops : byteLength (before ++ '"' :: part) + byteLength ['"'] =
      byteLength before + byteLength ('"' :: (part ++ ['"'])) := by
    simp only [Text.byteLength_append, Text.byteLength_cons, Text.byteLength_nil]
    omega
  refine ⟨before, part, after, split, paired, paired', rfl, ?_, stops⟩
  have whole : code = before ++ (('"' :: (part ++ ['"'])) ++ after) := by simp [split]
  rw [whole]
  exact Text.slice_eq_of_append rfl stops.symm

theorem pairUp_map {α β : Type} (change : α → β) (list : List α) :
    pairUp (list.map change) = (pairUp list).map (Prod.map change change) := by
  fun_induction pairUp list with
  | case1 first second rest inductionHypothesis => simp [pairUp, inductionHypothesis]
  | case2 list none =>
      match list with
      | [] => rfl
      | [_] => rfl
      | first :: second :: rest => exact absurd rfl (none first second rest)

/-- A text between two tokens that are not quotes has the quoted regions of the text itself. -/
theorem quotedRanges_delimited {opening closing : Char} {openingToken closingToken : Token}
    (opens : Token.ofChar? opening = some openingToken)
    (closes : Token.ofChar? closing = some closingToken) (notQuote : openingToken ≠ .quote)
    (notQuote' : closingToken ≠ .quote) {text : List Char} (paired : escapesPaired text = true) :
    quotedRanges (opening :: (text ++ [closing])) =
      (quotedRanges text).map fun region =>
        ⟨opening.utf8Size + region.start, opening.utf8Size + region.stop⟩ := by
  have quotes : (lexemes (opening :: (text ++ [closing]))).filter
        (fun lexeme => lexeme.token = .quote) =
      ((lexemes text).filter fun lexeme => lexeme.token = .quote).map
        (·.shift opening.utf8Size) := by
    rw [lexemes_between opens closes paired, lexemesFrom_eq_map,
      List.filter_cons_of_neg (by simpa using notQuote), List.filter_append, List.filter_map,
      List.filter_cons_of_neg (by simpa using notQuote'), List.filter_nil, List.append_nil]
    rfl
  simp only [quotedRanges, quotes, pairUp_map, List.map_map]
  refine List.map_congr_left fun pair _ => ?_
  simp [Prod.map]

/-- The quoted regions of a part of a text have the same leaves in the whole text. -/
theorem flatMap_regions_of_part (before part after : List Char) (offset : Nat) :
    ((quotedRanges part).map fun region =>
        (⟨byteLength before + region.start, byteLength before + region.stop⟩ : ByteRange)).flatMap
      (fun region => leafSpans (Text.slice (before ++ (part ++ after)) region)
        (offset + (OffsetIndex.ofText (before ++ (part ++ after))).charOffset region.start)) =
      quotedSpans part (offset + before.length) := by
  simp only [quotedSpans, List.flatMap_def, List.map_map]
  refine congrArg List.flatten (List.map_congr_left fun region member => ?_)
  obtain ⟨left, middle, right, split, _, _, start, sliced, stop⟩ :=
    exists_append_of_quotedRange member
  have whole : before ++ (part ++ after) =
      (before ++ left) ++ ('"' :: (middle ++ ['"']) ++ (right ++ after)) := by
    simp [split]
  have slicedWhole : Text.slice (before ++ (part ++ after))
      ⟨byteLength before + region.start, byteLength before + region.stop⟩ =
      '"' :: (middle ++ ['"']) := by
    rw [whole]
    exact Text.slice_eq_of_append (by rw [Text.byteLength_append, start]) (by omega)
  have inPart := OffsetIndex.charOffset_ofText left ('"' :: (middle ++ '"' :: right))
  have inWhole := OffsetIndex.charOffset_ofText (before ++ left)
    ('"' :: (middle ++ ['"']) ++ (right ++ after))
  rw [← split, ← start] at inPart
  rw [← whole, Text.byteLength_append, ← start, List.length_append] at inWhole
  simp only [Function.comp_apply, slicedWhole, sliced, inPart, inWhole, Nat.add_assoc]

/-- A text between two tokens that are not quotes has the quoted leaves of the text itself. -/
theorem quotedSpans_delimited {opening closing : Char} {openingToken closingToken : Token}
    (opens : Token.ofChar? opening = some openingToken)
    (closes : Token.ofChar? closing = some closingToken) (notQuote : openingToken ≠ .quote)
    (notQuote' : closingToken ≠ .quote) {text : List Char} (paired : escapesPaired text = true)
    (origin : Nat) :
    quotedSpans (opening :: (text ++ [closing])) origin = quotedSpans text (origin + 1) := by
  rw [quotedSpans, quotedRanges_delimited opens closes notQuote notQuote' paired]
  exact flatMap_regions_of_part [opening] text [closing] origin

theorem coversWord_of_mem_quotedSpans {text : List Char} {origin : Nat} {span : Span}
    (member : span ∈ quotedSpans text origin) : CoversWord text origin span := by
  obtain ⟨region, isRegion, isLeaf⟩ := List.mem_flatMap.mp member
  obtain ⟨before, part, after, split, paired, pairedPart, start, sliced, _⟩ :=
    exists_append_of_quotedRange isRegion
  have offset := OffsetIndex.charOffset_ofText before ('"' :: (part ++ '"' :: after))
  rw [sliced, start, split, offset] at isLeaf
  rw [split]
  rw [leafSpans_quoted pairedPart] at isLeaf
  exact .of_part rfl rfl paired pairedPart (coversWord_of_mem_leafSpans isLeaf)

/-- A covered word lies in the text. -/
theorem CoversWord.bounds {text : List Char} {origin : Nat} {span : Span}
    (covers : CoversWord text origin span) :
    origin ≤ span.start ∧ span.start < span.stop ∧ span.stop ≤ origin + text.length := by
  obtain ⟨lexeme, member, _, _, rfl⟩ := covers
  have tiled := tiled_lexemesFrom 0 text
  obtain ⟨before, after, split, place⟩ := tiled.exists_append member
  have given := List.length_pos_iff.mpr (tiled.covers member)
  rw [Nat.zero_add] at place
  have placed := SourceText.span_of_append split place.symm rfl
  have length := congrArg List.length split
  simp only [SourceText.span, SourceText.ofChars, List.length_append] at placed length
  simp only [Lexeme.range, Lexeme.stop, placed, Span.shift]
  omega

theorem inOrder_quotedSpans (text : List Char) (origin : Nat) :
    InOrder (quotedSpans text origin) := by
  refine List.pairwise_flatMap.mpr ⟨fun region _ => inOrder_leafSpans _ _, ?_⟩
  have regions : (quotedRanges text).Pairwise fun earlier later => earlier.stop ≤ later.start :=
    List.pairwise_map.mpr (pairwise_pairUp (((tiled_lexemesFrom 0 text).pairwise).filter _)).2
  refine regions.imp_of_mem ?_
  intro earlier later isEarlier _ apart span inEarlier other inLater
  obtain ⟨before, part, after, split, _, _, start, sliced, stop⟩ :=
    exists_append_of_quotedRange isEarlier
  -- The spans of a region end where the region ends.
  have whole : text = before ++ (('"' :: (part ++ ['"'])) ++ after) := by simp [split]
  have region := SourceText.span_of_append whole start.symm stop.symm
  simp only [SourceText.span, SourceText.ofChars, OffsetIndex.span, Span.mk.injEq] at region
  have ends := (coversWord_of_mem_leafSpans inEarlier).bounds.2.2
  have starts := (coversWord_of_mem_leafSpans inLater).bounds.1
  have ordered := OffsetIndex.charOffset_mono (OffsetIndex.ofText text) apart
  rw [sliced, region.1] at ends
  rw [region.2] at ordered
  omega

/-! ## Words in a program -/

/-- A word of a part of a program: the span is that of its bytes in the program, and its characters
are those of the span. -/
theorem CoversWord.in_source {chars : List Char} {range : ByteRange} {location : Span}
    (first : Text.Boundary chars range.start) (last : Text.Boundary chars range.stop)
    (forward : range.start ≤ range.stop)
    (covers : CoversWord (Text.slice chars range)
      ((SourceText.ofChars chars).charOffset range.start) location) :
    ∃ lexeme ∈ lexemes (Text.slice chars range),
      lexeme.token = .word ∧ isSounding lexeme.text = true ∧ '\n' ∉ lexeme.text ∧
        location = (SourceText.ofChars chars).span
          ⟨range.start + lexeme.start, range.start + lexeme.stop⟩ ∧
        (chars.drop location.start).take location.length = lexeme.text := by
  obtain ⟨lexeme, member, isWord, sounds, rfl⟩ := covers
  obtain ⟨before, after, split, atStart, atStop⟩ :=
    Text.slice?_eq_some_iff.mp (Text.slice?_of_boundaries first last forward)
  obtain ⟨left, right, splitPart, place⟩ := (tiled_lexemesFrom 0 _).exists_append member
  rw [Nat.zero_add] at place
  have whole : chars = (before ++ left) ++ (lexeme.text ++ (right ++ after)) := by
    rw [split, splitPart]
    simp
  have stop : range.start + lexeme.start + byteLength lexeme.text = range.start + lexeme.stop := by
    rw [Lexeme.stop, Nat.add_assoc]
  have inSource := SourceText.span_of_append whole
    (by rw [Text.byteLength_append, atStart, place]) stop
  have inPart := SourceText.span_of_append splitPart place.symm rfl
  have offset := OffsetIndex.charOffset_ofText before (Text.slice chars range ++ after)
  rw [← split, atStart] at offset
  have same : ((OffsetIndex.ofText (Text.slice chars range)).span lexeme.range).shift
      ((SourceText.ofChars chars).charOffset range.start) =
      (SourceText.ofChars chars).span
        ⟨range.start + lexeme.start, range.start + lexeme.stop⟩ := by
    simp only [SourceText.span, SourceText.ofChars, SourceText.charOffset] at inPart inSource ⊢
    rw [inSource, Lexeme.range, Lexeme.stop, inPart, offset, List.length_append]
    simp only [Span.shift, Span.mk.injEq]
    omega
  refine ⟨lexeme, member, isWord, sounds, newline_not_mem_word member isWord, same, ?_⟩
  rw [same, inSource, whole]
  simp [Span.length]

end PatternScript.Notation
