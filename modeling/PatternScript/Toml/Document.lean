import PatternScript.Toml.Scalar
import PatternScript.Toml.Table

/-!
Contract: the value of a settings text.

A text is a sequence of sections. A section has pairs of keys and values and, unless it is the first,
a header that names the table the pairs go to, or the array that a new table with these pairs is added
to.

Owns: keys, arrays, inline tables, sections, and the table that a text stands for.
Does not own: what the table means.
-/

namespace PatternScript.Toml

open Reader

/-! ## Keys and values -/

/-- Characters of keys without quotes. -/
def isKeyChar (c : Char) : Bool :=
  c.isAlphanum || c == '_' || c == '-'

/-- One part of a key. -/
def keyPart : Reader String := do
  blanks
  let name ← basicString <|> literalString <|> (do
    let first ← char isKeyChar
    return first :: (← chars isKeyChar))
  blanks
  return String.ofList name

/-- A key of parts with dots between them. -/
def key : Reader (List String) :=
  separated keyPart (exactly ['.'])

/-- A key and its value. -/
def pair (value : Reader Json) : Reader (List String × Json) := do
  let key ← key
  exactly ['=']
  blanks
  return (key, ← value)

/-- An array. Its last value may have a comma behind it. -/
def array (value : Reader Json) : Reader Json := do
  exactly ['[']
  let element : Reader Json := do
    spacing
    let element ← value
    spacing
    return element
  let elements ← maybe do
    let elements ← separated element (exactly [','])
    let _ ← maybe (exactly [','])
    return elements
  spacing
  exactly [']']
  return .array (elements.getD [])

/-- A table in one line. -/
def inlineTable (value : Reader Json) : Reader Json := do
  exactly ['\x7b']
  let element : Reader (List String × Json) := do
    let pair ← pair value
    blanks
    return pair
  let pairs ← maybe (separated element (exactly [',']))
  blanks
  exactly ['\x7d']
  match putValues (pairs.getD []) [] with
  | some entries => return .object (entriesJson entries)
  | none => failure

/-- A value nested at most `depth` deep. -/
def valueUpTo : (depth : Nat) → Reader Json
  | 0 => failure
  | depth + 1 =>
      scalar <|> array (valueUpTo depth) <|> inlineTable (valueUpTo depth)

/-- How deep values may be nested. -/
def greatestDepth : Nat := 80

/-- A value. -/
def value : Reader Json :=
  valueUpTo greatestDepth

/-! ## Sections -/

/-- The header of a section. -/
inductive Header where
  /-- The pairs are those of a table. -/
  | table (key : List String)
  /-- The pairs are those of a new table of an array. -/
  | element (key : List String)
deriving DecidableEq, Repr

/-- A header with the rest of its line. -/
def header : Reader Header := do
  let header ← (do
      exactly ['[', '[']
      let key ← key
      exactly [']', ']']
      return Header.element key) <|> do
    exactly ['[']
    let key ← key
    exactly [']']
    return Header.table key
  lineRest
  return header

/-- Blanks, comments and empty lines. -/
def gap : Reader Unit := do
  blanks
  let _ ← many do
    (do comment; newline <|> finished) <|> newline
    blanks

/-- A pair with the rest of its line and the gap behind it. -/
def pairLine : Reader (List String × Json) := do
  let pair ← pair value
  lineRest
  gap
  return pair

/-- A header and the pairs behind it. -/
def section? : Reader (Header × List (List String × Json)) := do
  let header ← header
  gap
  return (header, ← many pairLine)

/-- Puts a section into the table of a text. -/
def putSection (entries : Entries) : Header × List (List String × Json) → Option Entries
  | (.table path, pairs) => do
      let last ← path.getLast?
      underHeader (fun above => do
          let start ← match above.find? last with
            | none => some []
            | some (.table .headerPath held) => some held
            | some _ => none
          let made ← putValues pairs start
          return (above.remove last).set last (.table .given made))
        path.dropLast entries
  | (.element path, pairs) => do
      let last ← path.getLast?
      underHeader (fun above => do
          let earlier ← match above.find? last with
            | none => some []
            | some (.tables earlier) => some earlier
            | some _ => none
          let made ← putValues pairs []
          return above.set last (.tables (made :: earlier)))
        path.dropLast entries

/-- The pairs before the first header, and the sections. -/
def document : Reader (List (List String × Json) × List (Header × List (List String × Json))) := do
  let _ ← maybe (exactly ['\uFEFF'])
  gap
  let pairs ← many pairLine
  let sections ← many section?
  finished
  return (pairs, sections)

/-- The table that a settings text stands for. -/
def read? (text : List Char) : Option Json := do
  let ((pairs, sections), _) ← document text
  let entries ← putValues pairs []
  let entries ← sections.foldlM putSection entries
  return .object (entriesJson entries)

end PatternScript.Toml
