import PatternScript.Proofs.Notation.Leaves

/-!
Contract: double quotes divide a text and mean nothing else.

A text in quotes has the leaves of the bare text, one character further on, as long as its last
backslash does not escape the closing quote. In a text with quoted regions, each region has the
leaves of its own text: neither the text around it nor another region reaches into it.

Owns: the leaves of a quoted text, and the regions of a text divided at its quotes.
Does not own: brackets as delimiters.
-/

namespace PatternScript.Notation

open Text (byteLength)

/-- Quotes around a text move its leaves by one character and change nothing else. Only a last
backslash without a partner makes a difference: it escapes the closing quote, which then belongs to
the text. -/
theorem leafSpans_in_quotes (text : List Char) (offset : Nat) :
    leafSpans ('"' :: (text ++ ['"'])) offset =
      if escapesPaired text then leafSpans text (offset + 1)
      else leafSpans (text ++ ['"']) (offset + 1) := by
  by_cases paired : escapesPaired text = true
  · rw [if_pos paired]
    exact leafSpans_quoted paired offset
  · rw [if_neg paired]
    exact leafSpans_opened rfl (by decide) rfl (text ++ ['"']) offset

/-! ## Regions -/

/-- The quotes of a text that are not escaped. -/
def quotes (text : List Char) : List Lexeme :=
  (lexemes text).filter fun lexeme => lexeme.token = .quote

theorem quotedRanges_eq (text : List Char) :
    quotedRanges text =
      (pairUp (quotes text)).map fun pair => ⟨pair.1.start, pair.2.stop⟩ := rfl

/-- Elements pair up part by part if the first part leaves none without a partner. -/
theorem pairUp_append {α : Type} {left : List α} (even : left.length % 2 = 0) (right : List α) :
    pairUp (left ++ right) = pairUp left ++ pairUp right := by
  fun_induction pairUp left with
  | case1 first second rest inductionHypothesis =>
      simp only [List.length_cons] at even
      simp only [List.cons_append, pairUp, inductionHypothesis (by omega)]
  | case2 list none =>
      rcases list with _ | ⟨first, _ | ⟨second, rest⟩⟩
      · rfl
      · simp at even
      · exact absurd rfl (none first second rest)

theorem pairUp_of_length_lt {α : Type} {list : List α} (few : list.length < 2) :
    pairUp list = [] := by
  rcases list with _ | ⟨first, _ | ⟨second, rest⟩⟩
  · rfl
  · rfl
  · simp only [List.length_cons] at few
    omega

section Divided

variable {before part after : List Char}

/-- A region between two quotes divides the quotes of a text. -/
theorem quotes_divided (paired : escapesPaired before = true)
    (pairedPart : escapesPaired part = true) :
    quotes (before ++ '"' :: (part ++ '"' :: after)) =
      quotes before ++ ⟨.quote, byteLength before, ['"']⟩ ::
        ((quotes part).map (·.shift (byteLength before + 1)) ++
          ⟨.quote, byteLength before + 1 + byteLength part, ['"']⟩ ::
            (quotes after).map (·.shift (byteLength before + 1 + byteLength part + 1))) := by
  have isQuote : Token.ofChar? '"' = some .quote := rfl
  have shifted : ∀ bytes text, ((lexemes text).map (·.shift bytes)).filter
      (fun lexeme => lexeme.token = .quote) = (quotes text).map (·.shift bytes) := by
    intro bytes text
    rw [List.filter_map]
    rfl
  rw [quotes, lexemes_delimited isQuote isQuote paired pairedPart, lexemesFrom_eq_map,
    lexemesFrom_eq_map, List.filter_append, List.filter_cons_of_pos (by simp), List.filter_append,
    List.filter_cons_of_pos (by simp), shifted, shifted]
  rfl

/-- The regions of a text: those before a region, the region itself, and those behind it. -/
theorem quotedRanges_divided (paired : escapesPaired before = true)
    (pairedPart : escapesPaired part = true) (even : (quotes before).length % 2 = 0)
    (none : quotes part = []) :
    quotedRanges (before ++ '"' :: (part ++ '"' :: after)) =
      quotedRanges before ++
        ⟨byteLength before, byteLength before + byteLength ('"' :: (part ++ ['"']))⟩ ::
          (quotedRanges after).map fun region =>
            ⟨byteLength (before ++ '"' :: (part ++ ['"'])) + region.start,
              byteLength (before ++ '"' :: (part ++ ['"'])) + region.stop⟩ := by
  have quote : '"'.utf8Size = 1 := rfl
  have closes : Lexeme.stop ⟨.quote, byteLength before + 1 + byteLength part, ['"']⟩ =
      byteLength before + byteLength ('"' :: (part ++ ['"'])) := by
    simp only [Lexeme.stop, Text.byteLength_cons, Text.byteLength_append, Text.byteLength_nil,
      quote]
    omega
  have behind : byteLength (before ++ '"' :: (part ++ ['"'])) =
      byteLength before + 1 + byteLength part + 1 := by
    simp only [Text.byteLength_cons, Text.byteLength_append, Text.byteLength_nil, quote]
    omega
  rw [quotedRanges_eq, quotes_divided paired pairedPart, none, pairUp_append even, List.map_nil,
    List.nil_append, pairUp, pairUp_map, List.map_append, List.map_cons, List.map_map, closes,
    behind, quotedRanges_eq, quotedRanges_eq, List.map_map]
  simp only [Function.comp_def, Prod.map, Lexeme.shift_start, Lexeme.shift_stop]

end Divided

/-- Quoted regions are independent of each other and of the text around them. Where all quotes
before have paired up, the next two enclose a region with the leaves of its own text, and the other
regions are those of the text before and of the text behind. A text with fewer than two quotes has
none. -/
theorem quotedSpans_divided {before part after : List Char} (offset : Nat)
    (paired : escapesPaired before = true) (pairedPart : escapesPaired part = true)
    (even : (quotes before).length % 2 = 0) (none : quotes part = []) :
    quotedSpans (before ++ '"' :: (part ++ '"' :: after)) offset =
        quotedSpans before offset ++
          (leafSpans part (offset + before.length + 1) ++
            quotedSpans after (offset + before.length + part.length + 2)) ∧
      ∀ text place, (quotes text).length < 2 → quotedSpans text place = [] := by
  constructor
  · have regionsBefore := flatMap_regions_of_part [] before ('"' :: (part ++ '"' :: after)) offset
    have regionsBehind := flatMap_regions_of_part (before ++ '"' :: (part ++ ['"'])) after [] offset
    have whole : before ++ '"' :: (part ++ ['"']) ++ (after ++ []) =
        before ++ '"' :: (part ++ '"' :: after) := by simp
    have region : Text.slice (before ++ '"' :: (part ++ '"' :: after))
        ⟨byteLength before, byteLength before + byteLength ('"' :: (part ++ ['"']))⟩ =
        '"' :: (part ++ ['"']) := by
      have inside := @Text.slice_eq_of_append before ('"' :: (part ++ ['"'])) after _ _ rfl rfl
      rwa [List.cons_append, List.append_assoc, List.singleton_append] at inside
    have place := OffsetIndex.charOffset_ofText before ('"' :: (part ++ '"' :: after))
    simp only [Text.byteLength_nil, Nat.zero_add, List.map_id', List.nil_append, List.length_nil,
      Nat.add_zero] at regionsBefore
    rw [whole] at regionsBehind
    rw [quotedSpans, quotedRanges_divided paired pairedPart even none, List.flatMap_append,
      List.flatMap_cons, regionsBefore, regionsBehind, region, place, leafSpans_quoted pairedPart]
    simp only [List.length_append, List.length_cons, List.length_nil, Nat.add_assoc]
  · intro text place few
    rw [quotedSpans, quotedRanges_eq, pairUp_of_length_lt few]
    rfl

/-- A region with groups that never close and an escaped quote, between other regions. -/
theorem quotedSpans_divided_unclosed :
    let before := "s \"bd*\" # ".toList
    let part := "é [hh\\\" (sn".toList
    let after := " # \"1 2\" \"".toList
    (escapesPaired before = true ∧ escapesPaired part = true ∧
        (quotes before).length % 2 = 0 ∧ quotes part = [] ∧ (quotes part).length < 2) ∧
      quotedSpans (before ++ '"' :: (part ++ '"' :: after)) 6 =
        quotedSpans before 6 ++
          (leafSpans part (6 + before.length + 1) ++
            quotedSpans after (6 + before.length + part.length + 2)) ∧
      quotedSpans before 6 = [⟨9, 11⟩] ∧ leafSpans part 17 = [⟨17, 18⟩, ⟨20, 24⟩] ∧
      quotedSpans part 0 = [] := by
  intro before part after
  have paired : escapesPaired before = true := by decide +kernel
  have pairedPart : escapesPaired part = true := by decide +kernel
  have even : (quotes before).length % 2 = 0 := by decide +kernel
  have none : quotes part = [] := by decide +kernel
  have few : (quotes part).length < 2 := by decide +kernel
  obtain ⟨divided, fewer⟩ := @quotedSpans_divided before part after 6 paired pairedPart even none
  exact ⟨⟨paired, pairedPart, even, none, few⟩, divided, by decide +kernel, by decide +kernel,
    fewer part 0 few⟩

end PatternScript.Notation
