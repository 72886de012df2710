import PatternScript.Proofs.Source.Offsets

/-!
Contract: the bytes of a text and its characters, through the index.

The bytes of a text are those of its UTF-8 encoding. A range between characters is decoded to the
characters of its span. A byte that starts a character is given the offset of that character, and a
byte further inside is given the offset of the next one.

Owns: the encoding of a text and the characters that its bytes belong to.
Does not own: the search of the index, and rows and columns.
-/

namespace PatternScript

open Text (byteLength Boundary)

namespace Text

/-! ## Encodings -/

@[simp] theorem size_utf8Encode (text : List Char) : text.utf8Encode.size = byteLength text := by
  induction text with
  | nil => simp
  | cons c rest inductionHypothesis =>
      rw [List.utf8Encode_cons, ByteArray.size_append, inductionHypothesis,
        List.utf8Encode_singleton, List.size_toByteArray, String.length_utf8EncodeChar,
        byteLength_cons]

/-- The bytes of a range between characters are the encoding of its slice. -/
theorem extract_utf8Encode {text : List Char} {start stop : Nat} (first : Boundary text start)
    (last : Boundary text stop) (forward : start ≤ stop) :
    text.utf8Encode.extract start stop = (slice text ⟨start, stop⟩).utf8Encode := by
  obtain ⟨before, after, split, atStart, atStop⟩ :=
    slice?_eq_some_iff.mp (slice?_of_boundaries first last forward)
  generalize slice text ⟨start, stop⟩ = middle at split atStop ⊢
  subst split atStart atStop
  have dropped := @ByteArray.extract_append_size_add' before.utf8Encode
    (middle.utf8Encode ++ after.utf8Encode) 0 (byteLength middle) _ (size_utf8Encode before).symm
  rw [List.utf8Encode_append, List.utf8Encode_append]
  exact dropped.trans (ByteArray.extract_append_eq_left (size_utf8Encode middle).symm)

end Text

namespace OffsetIndex

/-- Byte ranges and spans select the same text: the bytes of a range between characters are decoded
to the characters of its span. The index keeps the order of all byte offsets and gives those from the
end on the number of characters. The place it gives is the one at which the starts of all characters
part, and in a text of ASCII characters, where it keeps none of them, it gives the place that the
search among all of them gives. -/
theorem span_selects_bytes (text : List Char) :
    (∀ range : ByteRange, Boundary text range.start → Boundary text range.stop →
      range.start ≤ range.stop →
        let span := (ofText text).span range
        span.start ≤ span.stop ∧ span.stop ≤ (ofText text).length ∧
          (text.utf8Encode.extract range.start range.stop).utf8Decode? =
            some (text.extract span.start span.stop).toArray) ∧
      (ofText text).length = text.length ∧
      (∀ first second : Nat, first ≤ second →
        (ofText text).charOffset first ≤ (ofText text).charOffset second) ∧
      (∀ byte : Nat, text.utf8Encode.size ≤ byte →
        (ofText text).charOffset byte = (ofText text).length) ∧
      (∀ byte place : Nat,
        PartsAt (startsFrom 0 text) byte place ↔ place = (ofText text).charOffset byte) ∧
      (isAscii text = true → (ofText text).starts = [] ∧ ∀ byte : Nat,
        (ofText text).charOffset byte = countBefore (startsFrom 0 text) byte) := by
  refine ⟨?_, length_ofText text, fun _ _ => (ofText text).charOffset_mono, ?_,
    fun _ _ => partsAt_iff, ?_⟩
  · intro range first last forward
    obtain ⟨_, _, ordered, bounded, covered⟩ := SourceText.span_covers first last forward
    refine ⟨ordered, ?_, ?_⟩
    · rw [length_ofText]
      exact bounded
    · rw [Text.extract_utf8Encode first last forward, List.utf8Decode?_utf8Encode]
      exact congrArg (fun chars => some (List.toArray chars)) covered.symm
  · intro byte past
    rw [length_ofText]
    rw [Text.size_utf8Encode] at past
    exact charOffset_of_le past
  · intro ascii
    exact ⟨starts_ofText_eq_nil_iff.mpr ascii, charOffset_eq_countBefore text⟩

/-- The drum in a text of characters of two, four and one bytes, and a byte past the end of a text of
ASCII characters. -/
theorem span_selects_bytes_drum :
    Boundary ['é', '🥁', 'x'] 2 ∧ Boundary ['é', '🥁', 'x'] 6 ∧
      (ofText ['é', '🥁', 'x']).span ⟨2, 6⟩ = ⟨1, 2⟩ ∧
      (['é', '🥁', 'x'].utf8Encode.extract 2 6).utf8Decode? = some #['🥁'] ∧
      isAscii ['b', 'd'] = true ∧
      (ofText ['b', 'd']).charOffset 7 = countBefore (startsFrom 0 ['b', 'd']) 7 := by
  have first : Boundary ['é', '🥁', 'x'] 2 := by decide
  have last : Boundary ['é', '🥁', 'x'] 6 := by decide
  have placed : (ofText ['é', '🥁', 'x']).span ⟨2, 6⟩ = ⟨1, 2⟩ := by decide
  have ascii : isAscii ['b', 'd'] = true := by decide
  have selected := (span_selects_bytes ['é', '🥁', 'x']).1 ⟨2, 6⟩ first last (by decide)
  rw [placed] at selected
  obtain ⟨_, _, _, _, _, searched⟩ := span_selects_bytes ['b', 'd']
  exact ⟨first, last, placed, selected.2.2, ascii, (searched ascii).2 7⟩

/-! ## Bytes inside a character -/

/-- The encoding of the character at a place covers a byte. -/
structure CoveredBy (text : List Char) (byte place : Nat) : Prop where
  bounded : place < text.length
  starts : byteLength (text.take place) ≤ byte
  ends : byte < byteLength (text.take (place + 1))

theorem byteLength_take_mono (text : List Char) {less more : Nat} (ordered : less ≤ more) :
    byteLength (text.take less) ≤ byteLength (text.take more) := by
  obtain ⟨extra, longer⟩ : text.take less <+: text.take more := List.take_prefix_take_left ordered
  rw [← longer, Text.byteLength_append]
  exact Nat.le_add_right _ _

/-- Every byte of a text belongs to a character. -/
theorem exists_coveredBy {text : List Char} {byte : Nat} (inside : byte < byteLength text) :
    ∃ place, CoveredBy text byte place := by
  induction text generalizing byte with
  | nil => simp at inside
  | cons c rest inductionHypothesis =>
      by_cases early : byte < c.utf8Size
      · exact ⟨0, by simp, by simp, by simpa using early⟩
      · rw [Text.byteLength_cons] at inside
        obtain ⟨place, bounded, starts, ends⟩ :=
          @inductionHypothesis (byte - c.utf8Size) (by omega)
        refine ⟨place + 1, by simpa using bounded, ?_, ?_⟩
        · rw [List.take_succ_cons, Text.byteLength_cons]
          omega
        · rw [List.take_succ_cons, Text.byteLength_cons]
          omega

namespace CoveredBy

variable {text : List Char} {byte place other : Nat}

theorem unique (covered : CoveredBy text byte place) (again : CoveredBy text byte other) :
    other = place := by
  obtain ⟨_, starts, ends⟩ := covered
  obtain ⟨_, startsAgain, endsAgain⟩ := again
  rcases Nat.lt_trichotomy other place with before | same | behind
  · have apart : _ ≤ byteLength (text.take place) := byteLength_take_mono text before
    exact absurd (Nat.le_trans apart starts) (Nat.not_le.mpr endsAgain)
  · exact same
  · have apart : _ ≤ byteLength (text.take other) := byteLength_take_mono text behind
    exact absurd (Nat.le_trans apart startsAgain) (Nat.not_le.mpr ends)

/-- A covered byte is a boundary just if it is the first byte of the character. -/
theorem boundary_iff (covered : CoveredBy text byte place) :
    Boundary text byte ↔ byteLength (text.take place) = byte := by
  rw [Text.boundary_iff]
  constructor
  · rintro ⟨before, after, rfl, atByte⟩
    have inFront : before.length ≤ place := by
      refine Nat.le_of_not_lt fun behind => ?_
      have apart := byteLength_take_mono (before ++ after) behind
      rw [List.take_left, atByte] at apart
      exact Nat.not_lt.mpr apart covered.ends
    have reached := byteLength_take_mono (before ++ after) inFront
    rw [List.take_left, atByte] at reached
    exact Nat.le_antisymm covered.starts reached
  · intro first
    exact ⟨text.take place, text.drop place, (List.take_append_drop place text).symm, first⟩

/-- The first byte of a character is given the offset of that character. -/
theorem charOffset_first (covered : CoveredBy text byte place)
    (first : byteLength (text.take place) = byte) : (ofText text).charOffset byte = place := by
  have counted := charOffset_ofText (text.take place) (text.drop place)
  rw [List.take_append_drop, first] at counted
  rw [counted]
  exact List.length_take_of_le (Nat.le_of_lt covered.bounded)

/-- Any other byte of a character is given the offset of the next character. -/
theorem charOffset_inner (covered : CoveredBy text byte place)
    (inner : byteLength (text.take place) ≠ byte) :
    (ofText text).charOffset byte = place + 1 := by
  obtain ⟨bounded, starts, ends⟩ := covered
  have front : (text.take (place + 1)).length = place + 1 := List.length_take_of_le bounded
  rw [← List.take_append_drop (place + 1) text, charOffset_of_append, front]
  · intro start member
    rw [List.take_succ_eq_append_getElem bounded, startsFrom_append] at member
    rcases List.mem_append.mp member with early | here
    · have inFront := bounds_of_mem_startsFrom early
      omega
    · simp only [startsFrom, List.mem_singleton] at here
      omega
  · intro start member
    have later := bounds_of_mem_startsFrom member
    omega

end CoveredBy

/-- A byte of a text belongs to one character. The index gives the offset of that character just if
the byte falls between two characters, which is where the character starts; for a byte further inside
it gives the offset of the character behind. -/
theorem charOffset_eq_covering_iff (text : List Char) (byte : Nat)
    (inside : byte < text.utf8Encode.size) :
    ∃ place, CoveredBy text byte place ∧
      (∀ other, CoveredBy text byte other → other = place) ∧
      ((ofText text).charOffset byte = place ↔ Boundary text byte) ∧
      (¬ Boundary text byte → (ofText text).charOffset byte = place + 1) := by
  rw [Text.size_utf8Encode] at inside
  obtain ⟨place, covered⟩ := exists_coveredBy inside
  refine ⟨place, covered, fun _ => covered.unique, ?_, ?_⟩
  · rw [covered.boundary_iff]
    constructor
    · intro named
      refine Decidable.byContradiction fun inner => ?_
      have next := covered.charOffset_inner inner
      omega
    · exact covered.charOffset_first
  · rw [covered.boundary_iff]
    exact covered.charOffset_inner

/-- The second byte of a character of two bytes with another character behind it. -/
theorem charOffset_eq_covering_iff_accented :
    1 < ['é', 'x'].utf8Encode.size ∧ ¬ Boundary ['é', 'x'] 1 ∧
      ∃ place, CoveredBy ['é', 'x'] 1 place ∧
        (ofText ['é', 'x']).charOffset 1 = place + 1 := by
  have inside : 1 < ['é', 'x'].utf8Encode.size := by
    rw [Text.size_utf8Encode]
    decide
  have inner : ¬ Boundary ['é', 'x'] 1 := by decide
  obtain ⟨place, covered, _, _, next⟩ := charOffset_eq_covering_iff ['é', 'x'] 1 inside
  exact ⟨inside, inner, place, covered, next inner⟩

/-- The only character of a text covers its second byte, and the byte is given the end of the text. -/
theorem covering_character_missed :
    CoveredBy ['é'] 1 0 ∧ (ofText ['é']).charOffset 1 = 1 :=
  ⟨⟨by decide, by decide, by decide⟩, by decide⟩

end OffsetIndex

end PatternScript
