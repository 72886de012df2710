import Mathlib.Data.List.DropRight
import PatternScript.Proofs.Source.Offsets

/-!
Contract: rows and columns name the places of a text and keep their order.

The location of an offset is reached by passing the characters before it one by one. A character
passed moves on to the next column, or to the start of the next row, so places that follow each other
in a text follow each other by row and column.

Owns: what row and column count, the order of places by them, and that the line and column of a byte
are those of a place of the text.
Does not own: which locations are reported.
-/

namespace PatternScript

namespace Location

/-! ## Passing characters -/

/-- Row and column behind one more character. -/
def pass (place : Nat × Nat) (c : Char) : Nat × Nat :=
  if c = '\n' then (place.1 + 1, 0) else (place.1, place.2 + 1)

theorem advance_eq (text : List Char) (count row column : Nat) :
    advance text count row column =
      if count ≤ text.length then some ((text.take count).foldl pass (row, column)) else none := by
  fun_induction advance text count row column with
  | case1 text row column => simp
  | case2 count row column => simp
  | case3 rest count row column inductionHypothesis =>
      rw [inductionHypothesis, List.length_cons, List.take_succ_cons, List.foldl_cons]
      simp [pass]
  | case4 c rest count row column notNewline inductionHypothesis =>
      rw [inductionHypothesis, List.length_cons, List.take_succ_cons, List.foldl_cons]
      simp [pass, notNewline]

/-- From the start of a text, the row counts the line feeds passed and the column the characters
passed since the last of them. -/
theorem foldl_pass (front : List Char) :
    front.foldl pass (0, 0) = (front.count '\n', (front.rtakeWhile (· ≠ '\n')).length) := by
  induction front using List.reverseRecOn with
  | nil => rfl
  | append_singleton front c inductionHypothesis =>
      rw [List.foldl_append, inductionHypothesis, List.foldl_cons, List.foldl_nil, pass,
        List.count_append, List.rtakeWhile_concat]
      by_cases newline : c = '\n'
      · simp [newline]
      · simp [newline]

theorem lex_pass (place : Nat × Nat) (c : Char) :
    Prod.Lex (· < ·) (· < ·) place (pass place c) := by
  rw [Prod.lex_def, pass]
  split
  · exact .inl (Nat.lt_succ_self _)
  · exact .inr ⟨rfl, Nat.lt_succ_self _⟩

/-- Passing characters moves on, by row and then by column. -/
theorem lex_foldl_pass {passed : List Char} (given : passed ≠ []) (place : Nat × Nat) :
    Prod.Lex (· < ·) (· < ·) place (passed.foldl pass place) := by
  induction passed generalizing place with
  | nil => exact absurd rfl given
  | cons c rest inductionHypothesis =>
      have step := lex_pass place c
      rw [List.foldl_cons]
      by_cases last : rest = []
      · rw [last, List.foldl_nil]
        exact step
      · have run := inductionHypothesis last (pass place c)
        rw [Prod.lex_def] at step run ⊢
        omega

/-! ## Locations of one text -/

theorem ofOffset?_of_le {text : List Char} {offset : Nat} (inside : offset ≤ text.length) :
    ofOffset? text offset =
      some ⟨offset, (text.take offset).count '\n',
        ((text.take offset).rtakeWhile (· ≠ '\n')).length⟩ := by
  rw [ofOffset?, advance_eq, if_pos inside, foldl_pass]

theorem ofOffset?_eq_none_iff {text : List Char} {offset : Nat} :
    ofOffset? text offset = none ↔ text.length < offset := by
  by_cases inside : offset ≤ text.length
  · simp [ofOffset?_of_le inside, inside]
  · rw [ofOffset?, advance_eq, if_neg inside]
    simpa using inside

theorem ofOffset?_eq_some_iff {text : List Char} {offset : Nat} {location : Location} :
    ofOffset? text offset = some location ↔
      offset ≤ text.length ∧
        location = ⟨offset, (text.take offset).count '\n',
          ((text.take offset).rtakeWhile (· ≠ '\n')).length⟩ := by
  by_cases inside : offset ≤ text.length
  · rw [ofOffset?_of_le inside, Option.some.injEq, eq_comm]
    exact (and_iff_right inside).symm
  · rw [ofOffset?_eq_none_iff.mpr (Nat.lt_of_not_le inside)]
    simp [inside]

/-- A location is that of its offset in a text. -/
def Within (text : List Char) (location : Location) : Prop :=
  ofOffset? text location.offset = some location

theorem within_of_ofOffset? {text : List Char} {offset : Nat} {location : Location}
    (found : ofOffset? text offset = some location) :
    Within text location ∧ location.offset = offset := by
  obtain ⟨_, rfl⟩ := ofOffset?_eq_some_iff.mp found
  exact ⟨found, rfl⟩

namespace Within

variable {text : List Char} {left right : Location}

theorem place_eq (within : Within text left) :
    left.offset ≤ text.length ∧
      (left.row, left.column) = (text.take left.offset).foldl pass (0, 0) := by
  obtain ⟨inside, same⟩ := ofOffset?_eq_some_iff.mp within
  refine ⟨inside, ?_⟩
  rw [foldl_pass]
  exact congrArg (fun location : Location => (location.row, location.column)) same

/-- A place further on has a greater row, or a greater column of the same row. -/
theorem row_column_lt (inLeft : Within text left) (inRight : Within text right)
    (before : left.offset < right.offset) :
    left.row < right.row ∨ left.row = right.row ∧ left.column < right.column := by
  obtain ⟨_, leftPlace⟩ := inLeft.place_eq
  obtain ⟨inside, rightPlace⟩ := inRight.place_eq
  have passed : text.take right.offset =
      text.take left.offset ++ (text.take right.offset).drop left.offset := by
    have cut := List.take_append_drop left.offset (text.take right.offset)
    rw [List.take_take, Nat.min_eq_left (Nat.le_of_lt before)] at cut
    exact cut.symm
  have given : (text.take right.offset).drop left.offset ≠ [] := by
    rw [← List.length_pos_iff, List.length_drop, List.length_take]
    omega
  rw [passed, List.foldl_append, ← leftPlace] at rightPlace
  have further := lex_foldl_pass given (left.row, left.column)
  rw [← rightPlace, Prod.lex_def] at further
  exact further

end Within

/-! ## The order of locations -/

/-- One location does not come after another by row and then by column. -/
def lePlace (left right : Location) : Bool :=
  ((Ord.compare left.row right.row).then (Ord.compare left.column right.column)).isLE

theorem lePlace_iff {left right : Location} :
    lePlace left right = true ↔
      left.row < right.row ∨ left.row = right.row ∧ left.column ≤ right.column := by
  simp only [lePlace, Ordering.isLE_then_iff_or, Nat.compare_eq_lt, Nat.compare_eq_eq,
    Nat.isLE_compare]

theorem le_iff {left right : Location} :
    le left right = true ↔
      left.offset < right.offset ∨ left.offset = right.offset ∧ lePlace left right = true := by
  simp only [le, compare, lePlace, Ordering.isLE_then_iff_or, Nat.compare_eq_lt,
    Nat.compare_eq_eq]

/-- Among the locations of one text the offset adds nothing to the order by row and column. -/
theorem Within.le_eq {text : List Char} {left right : Location} (inLeft : Within text left)
    (inRight : Within text right) : le left right = lePlace left right := by
  rw [Bool.eq_iff_iff, le_iff, lePlace_iff]
  rcases Nat.lt_trichotomy left.offset right.offset with before | same | behind
  · have further := inLeft.row_column_lt inRight before
    omega
  · omega
  · have further := inRight.row_column_lt inLeft behind
    omega

/-- Sorting the locations of one text sorts them by row and column. -/
theorem sort_eq {text : List Char} {locations : List Location}
    (within : ∀ location ∈ locations, Within text location) :
    sort locations = locations.mergeSort lePlace := by
  have agree : ∀ left ∈ locations, ∀ right ∈ locations,
      le left right = lePlace (id left) (id right) := by
    intro left inLeft right inRight
    exact (within left inLeft).le_eq (within right inRight)
  have sorted := List.map_mergeSort agree
  rwa [List.map_id, List.map_id] at sorted

theorem pairwise_mergeSort_lePlace (locations : List Location) :
    (locations.mergeSort lePlace).Pairwise fun earlier later =>
      earlier.row < later.row ∨ earlier.row = later.row ∧ earlier.column ≤ later.column := by
  have sorted : (locations.mergeSort lePlace).Pairwise fun earlier later =>
      lePlace earlier later = true := by
    apply List.pairwise_mergeSort
    · intro first second third before after
      rw [lePlace_iff] at before after ⊢
      omega
    · intro first second
      rw [Bool.or_eq_true, lePlace_iff, lePlace_iff]
      omega
  exact sorted.imp lePlace_iff.mp

end Location

/-- Every byte offset has the line and column of a place of the text. -/
theorem SourceText.exists_lineColumn (chars : List Char) (byte : Nat) :
    ∃ location, Location.ofOffset? chars ((ofChars chars).charOffset byte) = some location ∧
      (ofChars chars).lineColumn byte = (location.row + 1, location.column + 1) := by
  have inside : (ofChars chars).charOffset byte ≤ (ofChars chars).chars.length :=
    OffsetIndex.charOffset_le_length chars byte
  have found := Location.ofOffset?_of_le inside
  refine ⟨_, found, ?_⟩
  rw [lineColumn, found]

namespace Location

/-- Row and column are a faithful coordinate. A text has a location for the offsets up to its length
and for no other; the row counts the line feeds before the offset, and the column the characters
behind the last of them. Places further on are greater by row and column, so that sorting the
locations of one text sorts them by row and column, and the line and column of any byte are those of
a place of the text. -/
theorem row_and_column_faithful (text : List Char) :
    (∀ offset, ofOffset? text offset = none ↔ text.length < offset) ∧
      (∀ offset, offset ≤ text.length →
        ofOffset? text offset =
          some ⟨offset, (text.take offset).count '\n',
            ((text.take offset).rtakeWhile (· ≠ '\n')).length⟩) ∧
      (∀ first second earlier later, first < second →
        ofOffset? text first = some earlier → ofOffset? text second = some later →
          earlier.row < later.row ∨ earlier.row = later.row ∧ earlier.column < later.column) ∧
      (∀ locations : List Location,
        (∀ location ∈ locations, ∃ offset, ofOffset? text offset = some location) →
          sort locations = locations.mergeSort lePlace ∧
            (sort locations).Pairwise fun earlier later =>
              earlier.row < later.row ∨
                earlier.row = later.row ∧ earlier.column ≤ later.column) ∧
      (∀ byte, ∃ location,
        ofOffset? text ((SourceText.ofChars text).charOffset byte) = some location ∧
          (SourceText.ofChars text).lineColumn byte =
            (location.row + 1, location.column + 1)) := by
  refine ⟨fun _ => ofOffset?_eq_none_iff, fun _ => ofOffset?_of_le, ?_, ?_,
    SourceText.exists_lineColumn text⟩
  · intro first second earlier later before atFirst atSecond
    obtain ⟨inEarlier, rfl⟩ := within_of_ofOffset? atFirst
    obtain ⟨inLater, rfl⟩ := within_of_ofOffset? atSecond
    exact inEarlier.row_column_lt inLater before
  · intro locations found
    have sorted : sort locations = locations.mergeSort lePlace := by
      refine @sort_eq text locations fun location member => ?_
      obtain ⟨offset, atOffset⟩ := found location member
      exact (within_of_ofOffset? atOffset).1
    rw [sorted]
    exact ⟨rfl, pairwise_mergeSort_lePlace locations⟩

/-- Two lines, with locations given from the last to the first. -/
theorem row_and_column_faithful_lines :
    ofOffset? ['ñ', '\n', 'a', 'b'] 1 = some ⟨1, 0, 1⟩ ∧
      ofOffset? ['ñ', '\n', 'a', 'b'] 3 = some ⟨3, 1, 1⟩ ∧
      ((0 : Nat) < 1 ∨ (0 : Nat) = 1 ∧ (1 : Nat) < 1) ∧
      sort [⟨3, 1, 1⟩, ⟨1, 0, 1⟩] = [⟨3, 1, 1⟩, ⟨1, 0, 1⟩].mergeSort lePlace := by
  have first : ofOffset? ['ñ', '\n', 'a', 'b'] 1 = some ⟨1, 0, 1⟩ := by decide
  have second : ofOffset? ['ñ', '\n', 'a', 'b'] 3 = some ⟨3, 1, 1⟩ := by decide
  obtain ⟨_, _, further, sorted, _⟩ := row_and_column_faithful ['ñ', '\n', 'a', 'b']
  refine ⟨first, second, further 1 3 _ _ (by decide) first second, (sorted _ ?_).1⟩
  intro location member
  rcases List.mem_pair.mp member with rfl | rfl
  · exact ⟨3, second⟩
  · exact ⟨1, first⟩

end Location

end PatternScript
