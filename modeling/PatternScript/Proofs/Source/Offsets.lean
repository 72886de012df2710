import PatternScript.Proofs.Source.Slices
import PatternScript.Source.SourceText

/-!
Contract: the search of an index, and the character offsets of places between characters.

The table of an index is strictly increasing, so it has one place at which it parts into the starts
before a byte and the others. The character offset of the byte is that place, whether the index keeps
the table or not.

Owns: the parting of a table, that the character offset of a boundary is the number of characters
before it, and that character offsets keep the order of byte offsets.
Does not own: bytes inside a character.
-/

namespace PatternScript

open Text (byteLength Boundary)

theorem Span.shift_shift (span : Span) (first second : Nat) :
    (span.shift first).shift second = span.shift (first + second) := by
  simp [shift, Nat.add_assoc]

namespace OffsetIndex

theorem utf8Size_of_ascii {c : Char} (ascii : c.toNat < 0x80) : c.utf8Size = 1 := by
  have small : c.val ≤ 0x7f := by
    rw [UInt32.le_iff_toNat_le]
    exact Nat.le_of_lt_succ ascii
  simp [Char.utf8Size, small]

/-- A text of ASCII characters has as many bytes as characters. -/
theorem byteLength_of_isAscii {text : List Char} (ascii : isAscii text = true) :
    byteLength text = text.length := by
  induction text with
  | nil => rfl
  | cons c rest inductionHypothesis =>
      simp only [isAscii, List.all_cons, Bool.and_eq_true, decide_eq_true_eq] at ascii
      rw [Text.byteLength_cons, utf8Size_of_ascii ascii.1, inductionHypothesis ascii.2,
        List.length_cons, Nat.add_comm]

/-! ## The table of character starts -/

theorem length_startsFrom (first : Nat) (text : List Char) :
    (startsFrom first text).length = text.length := by
  induction text generalizing first with
  | nil => rfl
  | cons c rest inductionHypothesis => simp [startsFrom, inductionHypothesis]

theorem startsFrom_append (first : Nat) (left right : List Char) :
    startsFrom first (left ++ right) =
      startsFrom first left ++ startsFrom (first + byteLength left) right := by
  induction left generalizing first with
  | nil => simp [startsFrom]
  | cons c rest inductionHypothesis =>
      simp [startsFrom, inductionHypothesis, Nat.add_assoc]

/-- Every character starts inside the text. -/
theorem bounds_of_mem_startsFrom {first start : Nat} {text : List Char}
    (member : start ∈ startsFrom first text) :
    first ≤ start ∧ start < first + byteLength text := by
  induction text generalizing first with
  | nil => simp [startsFrom] at member
  | cons c rest inductionHypothesis =>
      have positive := c.utf8Size_pos
      rw [Text.byteLength_cons]
      rcases List.mem_cons.mp member with rfl | later
      · omega
      · have inRest := inductionHypothesis later
        omega

theorem pairwise_startsFrom (first : Nat) (text : List Char) :
    (startsFrom first text).Pairwise (· < ·) := by
  induction text generalizing first with
  | nil => exact .nil
  | cons c rest inductionHypothesis =>
      refine .cons ?_ (inductionHypothesis _)
      intro start member
      have positive := c.utf8Size_pos
      have inRest := bounds_of_mem_startsFrom member
      omega

/-- A place parts a table at a byte: the entries in front of it lie before the byte, and the others
do not. -/
structure PartsAt (starts : List Nat) (byte place : Nat) : Prop where
  bounded : place ≤ starts.length
  before : ∀ start ∈ starts.take place, start < byte
  behind : ∀ start ∈ starts.drop place, byte ≤ start

/-- A table is parted at one place at most, however that is searched. -/
theorem PartsAt.eq_countBefore {starts : List Nat} {byte place : Nat}
    (parts : PartsAt starts byte place) : place = countBefore starts byte := by
  have none : (starts.drop place).takeWhile (· < byte) = [] := by
    cases rest : starts.drop place with
    | nil => rfl
    | cons start more =>
        have late := parts.behind start (by simp [rest])
        rw [List.takeWhile_cons_of_neg (by simpa using late)]
  have all : ∀ start ∈ starts.take place, decide (start < byte) = true := by
    intro start member
    exact decide_eq_true (parts.before start member)
  unfold countBefore
  rw [← List.take_append_drop place starts, List.takeWhile_append_of_pos all, none,
    List.append_nil, List.length_take, Nat.min_eq_left parts.bounded]

/-- An increasing table is parted by the number of its entries before the byte. -/
theorem partsAt_countBefore {starts : List Nat} (increasing : starts.Pairwise (· < ·))
    (byte : Nat) : PartsAt starts byte (countBefore starts byte) := by
  unfold countBefore
  induction increasing with
  | nil => exact ⟨Nat.le_refl 0, by simp, by simp⟩
  | @cons start rest later _ inductionHypothesis =>
      by_cases early : start < byte
      · rw [List.takeWhile_cons_of_pos (by simpa using early), List.length_cons]
        refine ⟨Nat.succ_le_succ inductionHypothesis.bounded, ?_, ?_⟩
        · intro other member
          rw [List.take_succ_cons] at member
          rcases List.mem_cons.mp member with rfl | inRest
          · exact early
          · exact inductionHypothesis.before other inRest
        · exact inductionHypothesis.behind
      · rw [List.takeWhile_cons_of_neg (by simpa using early), List.length_nil]
        refine ⟨Nat.zero_le _, by simp, ?_⟩
        intro other member
        rw [List.drop_zero] at member
        rcases List.mem_cons.mp member with rfl | inRest
        · exact Nat.le_of_not_lt early
        · have above := later other inRest
          omega

/-! ## The search and the short way -/

/-- The index keeps no table exactly for a text of ASCII characters. -/
theorem starts_ofText_eq_nil_iff {text : List Char} :
    (ofText text).starts = [] ↔ isAscii text = true := by
  cases ascii : isAscii text with
  | true => simp [ofText, ascii]
  | false =>
      cases text with
      | nil => simp [isAscii] at ascii
      | cons c rest => simp [ofText, ascii, startsFrom]

theorem length_ofText (text : List Char) : (ofText text).length = text.length := by
  unfold length
  cases ascii : isAscii text with
  | true =>
      rw [starts_ofText_eq_nil_iff.mpr ascii]
      exact byteLength_of_isAscii ascii
  | false =>
      have kept : (ofText text).starts ≠ [] := by simp [starts_ofText_eq_nil_iff, ascii]
      rw [if_neg (by simpa using kept)]
      simp [ofText, ascii, length_startsFrom]

/-- In a text of ASCII characters a byte has as many starts before it as bytes. -/
theorem countBefore_of_isAscii {text : List Char} (ascii : isAscii text = true)
    (first byte : Nat) :
    countBefore (startsFrom first text) byte = min (byte - first) (byteLength text) := by
  unfold countBefore
  induction text generalizing first with
  | nil => simp [startsFrom]
  | cons c rest inductionHypothesis =>
      simp only [isAscii, List.all_cons, Bool.and_eq_true, decide_eq_true_eq] at ascii
      have counted := inductionHypothesis ascii.2 (first + c.utf8Size)
      rw [utf8Size_of_ascii ascii.1] at counted
      rw [startsFrom, List.takeWhile_cons, Text.byteLength_cons, utf8Size_of_ascii ascii.1]
      by_cases early : first < byte
      · rw [if_pos (by simpa using early), List.length_cons, counted]
        omega
      · rw [if_neg (by simpa using early), List.length_nil]
        omega

/-- With and without a table the index counts the characters that start before a byte. -/
theorem charOffset_eq_countBefore (text : List Char) (byte : Nat) :
    (ofText text).charOffset byte = countBefore (startsFrom 0 text) byte := by
  unfold charOffset
  cases ascii : isAscii text with
  | true =>
      rw [starts_ofText_eq_nil_iff.mpr ascii, countBefore_of_isAscii ascii]
      rfl
  | false =>
      have kept : (ofText text).starts ≠ [] := by simp [starts_ofText_eq_nil_iff, ascii]
      rw [if_neg (by simpa using kept)]
      simp [ofText, ascii]

theorem partsAt_iff {text : List Char} {byte place : Nat} :
    PartsAt (startsFrom 0 text) byte place ↔ place = (ofText text).charOffset byte := by
  rw [charOffset_eq_countBefore]
  constructor
  · exact PartsAt.eq_countBefore
  · rintro rfl
    exact partsAt_countBefore (pairwise_startsFrom 0 text) byte

/-- Where the characters in front start before a byte and those behind do not, the byte is given the
number of those in front. -/
theorem charOffset_of_append {left right : List Char} {byte : Nat}
    (before : ∀ start ∈ startsFrom 0 left, start < byte)
    (behind : ∀ start ∈ startsFrom (byteLength left) right, byte ≤ start) :
    (ofText (left ++ right)).charOffset byte = left.length := by
  have table : startsFrom 0 (left ++ right) =
      startsFrom 0 left ++ startsFrom (byteLength left) right := by
    rw [startsFrom_append, Nat.zero_add]
  have parts : PartsAt (startsFrom 0 (left ++ right)) byte (startsFrom 0 left).length := by
    rw [table]
    exact ⟨by simp, by simpa using before, by simpa using behind⟩
  rw [← partsAt_iff.mp parts, length_startsFrom]

theorem charOffset_of_le {text : List Char} {byte : Nat} (past : byteLength text ≤ byte) :
    (ofText text).charOffset byte = text.length := by
  have inFront : ∀ start ∈ startsFrom 0 text, start < byte := by
    intro start member
    have inside := bounds_of_mem_startsFrom member
    omega
  have counted := @charOffset_of_append text [] byte inFront (by simp [startsFrom])
  rwa [List.append_nil] at counted

/-- The character offset of a place is the number of characters before it. -/
theorem charOffset_ofText (before after : List Char) :
    (ofText (before ++ after)).charOffset (byteLength before) = before.length := by
  apply charOffset_of_append
  · intro start member
    have inFront := bounds_of_mem_startsFrom member
    omega
  · intro start member
    exact (bounds_of_mem_startsFrom member).1

/-- Character offsets keep the order of byte offsets. -/
theorem charOffset_mono (index : OffsetIndex) {first second : Nat} (ordered : first ≤ second) :
    index.charOffset first ≤ index.charOffset second := by
  unfold charOffset
  split
  · omega
  · unfold countBefore
    induction index.starts with
    | nil => exact Nat.le_refl _
    | cons start rest inductionHypothesis =>
        simp only [List.takeWhile_cons, decide_eq_true_eq]
        split
        · rw [if_pos (by omega), List.length_cons, List.length_cons]
          exact Nat.succ_le_succ inductionHypothesis
        · exact Nat.zero_le _

theorem charOffset_le_length (text : List Char) (byte : Nat) :
    (ofText text).charOffset byte ≤ text.length := by
  have past := charOffset_of_le (Nat.le_max_right byte (byteLength text))
  rw [← past]
  exact charOffset_mono _ (Nat.le_max_left byte (byteLength text))

end OffsetIndex

namespace SourceText

/-- The span of a slice: the characters before it, and as many as it has. -/
theorem span_of_append {chars before middle after : List Char} {start stop : Nat}
    (split : chars = before ++ (middle ++ after)) (first : Text.byteLength before = start)
    (last : start + Text.byteLength middle = stop) :
    (ofChars chars).span ⟨start, stop⟩ = ⟨before.length, before.length + middle.length⟩ := by
  have atStart := OffsetIndex.charOffset_ofText before (middle ++ after)
  have atStop := OffsetIndex.charOffset_ofText (before ++ middle) after
  rw [List.append_assoc, Text.byteLength_append, List.length_append, first, last, ← split] at atStop
  rw [first, ← split] at atStart
  simp only [span, ofChars, OffsetIndex.span, atStart, atStop]

/-- The character offset of a place behind a slice. -/
theorem charOffset_stop {chars : List Char} {start stop : Nat} (first : Boundary chars start)
    (last : Boundary chars stop) (forward : start ≤ stop) :
    (ofChars chars).charOffset stop =
      (ofChars chars).charOffset start + (Text.slice chars ⟨start, stop⟩).length := by
  obtain ⟨before, after, split, atStart, atStop⟩ :=
    Text.slice?_eq_some_iff.mp (Text.slice?_of_boundaries first last forward)
  have placed := span_of_append split atStart atStop
  simp only [span, OffsetIndex.span, Span.mk.injEq] at placed
  rw [charOffset, charOffset, placed.2, placed.1]

/-- Places between characters have as many offsets as they are. -/
theorem charOffset_lt {chars : List Char} {first second : Nat} (atFirst : Boundary chars first)
    (atSecond : Boundary chars second) (ordered : first < second) :
    (ofChars chars).charOffset first < (ofChars chars).charOffset second := by
  have counted := charOffset_stop atFirst atSecond (Nat.le_of_lt ordered)
  obtain ⟨_, _, _, _, length⟩ := Text.slice?_eq_some_iff.mp
    (Text.slice?_of_boundaries atFirst atSecond (Nat.le_of_lt ordered))
  have nonempty : 0 < (Text.slice chars ⟨first, second⟩).length := by
    rw [List.length_pos_iff]
    intro empty
    rw [empty, Text.byteLength_nil] at length
    omega
  omega

theorem charOffset_mono (source : SourceText) {first second : Nat} (ordered : first ≤ second) :
    source.charOffset first ≤ source.charOffset second :=
  source.index.charOffset_mono ordered

/-- The character offset of the end of a text is its number of characters. -/
theorem charOffset_byteLength (chars : List Char) :
    (ofChars chars).charOffset (Text.byteLength chars) = chars.length := by
  have counted := OffsetIndex.charOffset_ofText chars []
  rwa [List.append_nil] at counted

/-- The span of a range between characters: before each of its ends stand the characters that take the
bytes before it, and its characters are those of the range. -/
theorem span_covers {chars : List Char} {range : ByteRange} (first : Boundary chars range.start)
    (last : Boundary chars range.stop) (forward : range.start ≤ range.stop) :
    let span := (ofChars chars).span range
    Text.byteLength (chars.take span.start) = range.start ∧
      Text.byteLength (chars.take span.stop) = range.stop ∧
      span.start ≤ span.stop ∧ span.stop ≤ chars.length ∧
      (chars.drop span.start).take (span.stop - span.start) = (ofChars chars).slice range := by
  obtain ⟨before, after, split, atStart, atStop⟩ :=
    Text.slice?_eq_some_iff.mp (Text.slice?_of_boundaries first last forward)
  have placed : (ofChars chars).span range = _ := span_of_append split atStart atStop
  have sliced : (ofChars chars).slice range = Text.slice chars ⟨range.start, range.stop⟩ := rfl
  rw [placed, sliced]
  generalize Text.slice chars ⟨range.start, range.stop⟩ = middle at split atStop ⊢
  subst split
  have whole : before ++ (middle ++ after) = (before ++ middle) ++ after := by simp
  refine ⟨?_, ?_, Nat.le_add_right _ _, by simp, by simp⟩
  · rw [List.take_left]
    exact atStart
  · rw [whole, ← List.length_append, List.take_left, Text.byteLength_append, atStart]
    exact atStop

end SourceText

end PatternScript
