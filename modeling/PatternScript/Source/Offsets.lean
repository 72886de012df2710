import PatternScript.Source.Span
import PatternScript.Source.Bytes

/-!
Contract: from byte offsets to character offsets.

In a text of ASCII characters the two units coincide, and the index keeps no table for it. For any
other text the index keeps the byte offset at which each character starts; the character offset of
a byte is the number of characters that start before it, so a byte inside a character belongs to
the character after it, and every byte past the end to the end.

Owns: the index of one text and its queries.
Does not own: rows and columns.
-/

namespace PatternScript

/-- What is needed to turn byte offsets of one text into character offsets. -/
structure OffsetIndex where
  /-- The length of the text in bytes. -/
  bytes : Nat
  /-- The byte offset of each character, in order; empty for a text of ASCII characters. -/
  starts : List Nat
deriving DecidableEq, Repr

namespace OffsetIndex

/-- Every character is one byte long. -/
def isAscii (text : List Char) : Bool :=
  text.all (fun c => c.toNat < 0x80)

/-- The byte offset of each character, counted from `first`. -/
def startsFrom (first : Nat) : List Char → List Nat
  | [] => []
  | c :: rest => first :: startsFrom (first + c.utf8Size) rest

/-- The index of a text. -/
def ofText (text : List Char) : OffsetIndex :=
  { bytes := Text.byteLength text
    starts := if isAscii text then [] else startsFrom 0 text }

/-- The number of characters that start before a byte offset. -/
def countBefore (starts : List Nat) (byte : Nat) : Nat :=
  (starts.takeWhile (· < byte)).length

/-- The character offset of a byte offset; offsets past the end give the number of characters. -/
def charOffset (index : OffsetIndex) (byte : Nat) : Nat :=
  if index.starts.isEmpty then min byte index.bytes else countBefore index.starts byte

/-- The span of characters that a byte range covers. -/
def span (index : OffsetIndex) (range : ByteRange) : Span :=
  ⟨index.charOffset range.start, index.charOffset range.stop⟩

/-- The number of characters of the text. -/
def length (index : OffsetIndex) : Nat :=
  if index.starts.isEmpty then index.bytes else index.starts.length

end OffsetIndex

end PatternScript
