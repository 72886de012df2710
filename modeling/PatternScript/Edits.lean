import PatternScript.Emission
import PatternScript.Source.Bytes
import PatternScript.Text.Blank
import PatternScript.Text.Quoted

/-!
Contract: replacements of parts of a text, and the text with the replacements made.

Replacements are kept in the order of their keys: by start, and of those that start together the
longer first, so that an outer replacement comes before the ones inside it. Writing a range copies
the text and puts the outermost replacements in; the source parts of a replacement are written the
same way, except that the replacement is not applied to itself. A replacement that reaches out of
the range or starts inside one that has been written is passed over.

Owns: the ordered replacements, and writing a range.
Does not own: which replacements a program needs.
-/

namespace PatternScript

/-- The place of a replacement in the order. -/
structure EditKey where
  start : Nat
  stop : Nat
deriving DecidableEq, Repr

/-- A replacement of the bytes of a range. -/
structure Edit where
  key : EditKey
  emission : Emission

/-- Replacements in the order of their keys, one for each key. -/
structure Edits where
  entries : List Edit := []

/-- Why a range cannot be written. -/
inductive RenderFault where
  /-- A piece of text starts behind its end, reaches past the end of the text, or splits a
  character. -/
  | badSlice
  /-- A replacement holds itself through its source parts. -/
  | endless
deriving DecidableEq, Repr

namespace EditKey

/-- Earlier starts come first, and longer ranges before shorter ones. -/
def before (left right : EditKey) : Bool :=
  left.start < right.start || (left.start == right.start && right.stop < left.stop)

end EditKey

namespace Edits

/-- Puts a replacement into its place; one with the same key gives way. -/
def insert (edit : Edit) : List Edit → List Edit
  | [] => [edit]
  | other :: rest =>
      if other.key = edit.key then edit :: rest
      else if edit.key.before other.key then edit :: other :: rest
      else other :: insert edit rest

/-- Replaces a range. -/
def replace (edits : Edits) (range : ByteRange) (emission : Emission) : Edits :=
  { entries := insert ⟨⟨range.start, range.stop⟩, emission⟩ edits.entries }

/-- The number of replacements. -/
def size (edits : Edits) : Nat :=
  edits.entries.length

/-- A piece of the text. -/
def copy (text : List Char) (range : ByteRange) : Except RenderFault (List Char) :=
  match Text.slice? text range with
  | some chars => .ok chars
  | none => .error .badSlice

/-- How a range is written, apart from the replacement that is being written. -/
abbrev RangeWriter := ByteRange → Option EditKey → Except RenderFault (List Char)

mutual

/-- The text of an emission that belongs to the replacement `owner`. -/
def writeEmission (write : RangeWriter) (owner : EditKey) :
    Emission → Except RenderFault (List Char)
  | .name text => .ok text.toList
  | .quoted value => .ok (Text.quoteDouble value.toList)
  | .identifier value => .ok (Text.quoteSingle value.toList)
  | .number value => .ok (Nat.toDigits 10 value)
  | .source range => write range (some owner)
  | .parens inner => do
      let written ← writeEmission write owner inner
      return '(' :: written ++ [')']
  | .call callee arguments => do
      let function ← writeEmission write owner callee
      let given ← writeArguments write owner arguments
      return function ++ '(' :: given ++ [')']
  | .member object property => do
      let written ← writeEmission write owner object
      return written ++ '.' :: property.toList
  | .await inner => do
      let written ← writeEmission write owner inner
      return "await ".toList ++ written

/-- The text between the parentheses of an emitted call. Argument text of the program loses its
leading blanks, and is left out with its comma if nothing else remains. -/
def writeArguments (write : RangeWriter) (owner : EditKey) :
    Arguments → Except RenderFault (List Char)
  | .list items => writeItems write owner items
  | .before first none => writeEmission write owner first
  | .before first (some range) => do
      let written ← writeEmission write owner first
      let rest := Text.trimLeft (← write range (some owner))
      return if rest.isEmpty then written else written ++ ", ".toList ++ rest

/-- Emitted arguments with commas between them. -/
def writeItems (write : RangeWriter) (owner : EditKey) :
    List Emission → Except RenderFault (List Char)
  | [] => .ok []
  | [last] => writeEmission write owner last
  | item :: rest => do
      let written ← writeEmission write owner item
      let more ← writeItems write owner rest
      return written ++ ", ".toList ++ more

end

/-- The text of a range from `cursor` on, given the replacements that do not start before the
range. -/
def writeFrom (text : List Char) (write : RangeWriter) (stop : Nat) (owner : Option EditKey) :
    (cursor : Nat) → List Edit → Except RenderFault (List Char)
  | cursor, [] => copy text ⟨cursor, stop⟩
  | cursor, edit :: rest =>
      if stop ≤ edit.key.start then copy text ⟨cursor, stop⟩
      else if edit.key.start < cursor ∨ some edit.key = owner ∨ stop < edit.key.stop then
        writeFrom text write stop owner cursor rest
      else do
        let before ← copy text ⟨cursor, edit.key.start⟩
        let replaced ← writeEmission write edit.key edit.emission
        let after ← writeFrom text write stop owner edit.key.stop rest
        return before ++ replaced ++ after

/-- The text of a range with source parts nested at most `depth` deep. -/
def writeUpTo (edits : Edits) (text : List Char) : (depth : Nat) → RangeWriter
  | 0 => fun _ _ => .error .endless
  | depth + 1 => fun range owner =>
      writeFrom text (writeUpTo edits text depth) range.stop owner range.start
        (edits.entries.filter fun edit => range.start ≤ edit.key.start)

/-- The text of a range with all replacements made. A replacement inside a source part of itself
would be inside it again without end, so no writing nests deeper than there are replacements. -/
def render (edits : Edits) (text : List Char) (range : ByteRange) :
    Except RenderFault (List Char) :=
  writeUpTo edits text (edits.size + 1) range none

end Edits

end PatternScript
