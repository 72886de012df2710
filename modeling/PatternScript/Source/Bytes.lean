import PatternScript.Source.Span

/-!
Contract: cutting a text at byte offsets.

A text is a list of characters; its byte offsets are those of its UTF-8 encoding. A cut is defined
only where an offset falls between two characters, so every function here that may miss answers
with an option and never with a damaged character.

Owns: the byte length of a text, the cut at one offset and the slice between two.
Does not own: character offsets.
-/

namespace PatternScript.Text

/-- The number of bytes of the UTF-8 encoding. -/
def byteLength : List Char → Nat
  | [] => 0
  | c :: rest => c.utf8Size + byteLength rest

/-- The text before and after a byte offset, if the offset falls between two characters. -/
def splitAtByte? : List Char → Nat → Option (List Char × List Char)
  | text, 0 => some ([], text)
  | [], _ + 1 => none
  | c :: rest, offset =>
      if c.utf8Size ≤ offset then
        match splitAtByte? rest (offset - c.utf8Size) with
        | some (before, after) => some (c :: before, after)
        | none => none
      else none

/-- The characters encoded by the bytes of a range, if both of its ends fall between characters
and the range does not end before it starts. -/
def slice? (text : List Char) (range : ByteRange) : Option (List Char) :=
  if range.start ≤ range.stop then
    match splitAtByte? text range.start with
    | some (_, after) =>
        match splitAtByte? after (range.stop - range.start) with
        | some (middle, _) => some middle
        | none => none
    | none => none
  else none

/-- The characters of a range that is known to be a valid slice; empty otherwise. -/
def slice (text : List Char) (range : ByteRange) : List Char :=
  (slice? text range).getD []

end PatternScript.Text
