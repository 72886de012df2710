/-!
Contract: rows and columns of a text.

Rows end at a line feed and at nothing else. Rows, columns and offsets count characters from zero.

Owns: the location of a character offset and the order of locations.
Does not own: the lines of an error report, which end at more characters.
-/

namespace PatternScript

/-- A character offset together with its row and column. -/
structure Location where
  offset : Nat
  row : Nat
  column : Nat
deriving DecidableEq, Repr, Inhabited

namespace Location

/-- Row and column reached from a given row and column after `count` characters, if the text has
that many. -/
def advance : List Char → (count row column : Nat) → Option (Nat × Nat)
  | _, 0, row, column => some (row, column)
  | [], _ + 1, _, _ => none
  | c :: rest, count + 1, row, column =>
      if c = '\n' then advance rest count (row + 1) 0 else advance rest count row (column + 1)

/-- The location of a character offset, if the text is long enough. -/
def ofOffset? (text : List Char) (offset : Nat) : Option Location :=
  match advance text offset 0 0 with
  | some (row, column) => some ⟨offset, row, column⟩
  | none => none

/-- Locations are ordered by offset, then by row, then by column. -/
def compare (left right : Location) : Ordering :=
  (Ord.compare left.offset right.offset).then
    ((Ord.compare left.row right.row).then (Ord.compare left.column right.column))

/-- One location does not come after another. -/
def le (left right : Location) : Bool :=
  (compare left right).isLE

/-- Locations in their order; equal ones keep their places. -/
def sort (locations : List Location) : List Location :=
  locations.mergeSort le

end Location

end PatternScript
