import PatternScript.Source.Offsets
import PatternScript.Source.Location

/-!
Contract: a program text that is read by byte ranges and reported in characters.

Owns: the text with its index, the text of a range, and one-based lines and columns.
Does not own: the syntax tree over the text.
-/

namespace PatternScript

/-- A program text together with its offset index. -/
structure SourceText where
  chars : List Char
  index : OffsetIndex

namespace SourceText

/-- A text with the index that belongs to it. -/
def ofChars (chars : List Char) : SourceText :=
  { chars := chars, index := OffsetIndex.ofText chars }

/-- The text of a string. -/
def ofString (text : String) : SourceText :=
  ofChars text.toList

/-- The length in bytes. -/
def byteLength (source : SourceText) : Nat :=
  Text.byteLength source.chars

/-- The whole text as a byte range. -/
def whole (source : SourceText) : ByteRange :=
  ⟨0, source.byteLength⟩

/-- The characters of a byte range. -/
def slice (source : SourceText) (range : ByteRange) : List Char :=
  Text.slice source.chars range

/-- The text of a byte range. -/
def text (source : SourceText) (range : ByteRange) : String :=
  String.ofList (source.slice range)

/-- The character offset of a byte offset. -/
def charOffset (source : SourceText) (byte : Nat) : Nat :=
  source.index.charOffset byte

/-- The characters that a byte range covers. -/
def span (source : SourceText) (range : ByteRange) : Span :=
  source.index.span range

/-- Line and column of a byte offset, both counted from one. -/
def lineColumn (source : SourceText) (byte : Nat) : Nat × Nat :=
  match Location.ofOffset? source.chars (source.charOffset byte) with
  | some location => (location.row + 1, location.column + 1)
  | none => (1, 1)

end SourceText

end PatternScript
