/-!
Contract: reading a settings text from left to right.

Owns: the elementary readers, repetition, and blanks, comments and line ends.
Does not own: keys and values.
-/

namespace PatternScript.Toml

/-- A reader fails, or answers with a value and the text that is left. -/
abbrev Reader := StateT (List Char) Option

namespace Reader

/-- The next character without reading it. -/
def peek : Reader (Option Char) := do
  return (← get).head?

/-- Succeeds if the condition holds. -/
def ensure (condition : Bool) : Reader Unit :=
  if condition then pure () else failure

/-- One character of a class. -/
def char (accepts : Char → Bool) : Reader Char := fun text =>
  match text with
  | c :: rest => if accepts c then some (c, rest) else none
  | [] => none

/-- As many characters of a class as there are. -/
def chars (accepts : Char → Bool) : Reader (List Char) := fun text =>
  some (text.takeWhile accepts, text.dropWhile accepts)

/-- Exactly the given characters. -/
def exactly (expected : List Char) : Reader Unit := fun text =>
  if expected.isPrefixOf text then some ((), text.drop expected.length) else none

/-- The answer of a reader, or `none` with nothing read. -/
def maybe {α : Type} (reader : Reader α) : Reader (Option α) := fun text =>
  match reader text with
  | some (value, rest) => some (some value, rest)
  | none => some (none, text)

/-- As many answers of a reader as there are, at most `limit`. -/
def manyUpTo {α : Type} (reader : Reader α) : (limit : Nat) → Reader (List α)
  | 0 => pure []
  | limit + 1 => fun text =>
      match reader text with
      | some (value, rest) =>
          match manyUpTo reader limit rest with
          | some (values, rest) => some (value :: values, rest)
          | none => none
      | none => some ([], text)

/-- As many answers of a reader as there are. Every answer takes something, so the length of the
text bounds their number. -/
def many {α : Type} (reader : Reader α) : Reader (List α) := fun text =>
  manyUpTo reader text.length text

/-- Answers of a reader with separators between them, at least one. -/
def separated {α : Type} (reader : Reader α) (separator : Reader Unit) : Reader (List α) := do
  let first ← reader
  let others ← many do
    separator
    reader
  return first :: others

/-! ## Between keys and values -/

/-- Blanks inside a line. -/
def isLineBlank (c : Char) : Bool :=
  c == ' ' || c == '\t'

/-- Characters that a line may hold: all but controls, the tab apart. -/
def isInLine (c : Char) : Bool :=
  c == '\t' || (0x20 ≤ c.toNat && c.toNat != 0x7F)

/-- Blanks inside a line, if there are any. -/
def blanks : Reader Unit := do
  let _ ← chars isLineBlank

/-- The end of a line. -/
def newline : Reader Unit :=
  exactly ['\n'] <|> exactly ['\r', '\n']

/-- The end of the text. -/
def finished : Reader Unit := do
  ensure (← get).isEmpty

/-- A comment up to the end of its line. -/
def comment : Reader Unit := do
  exactly ['#']
  let _ ← chars isInLine

/-- What may stand behind a header or a value: blanks, a comment and the end of the line. -/
def lineRest : Reader Unit := do
  blanks
  let _ ← maybe comment
  newline <|> finished

/-- Blanks, comments and line ends inside an array. -/
def spacing : Reader Unit := do
  blanks
  let _ ← many do
    let _ ← maybe comment
    newline
    blanks

end Reader

end PatternScript.Toml
