/-!
Contract: the lines of a text as an editor counts them.

A line ends behind a line feed, a carriage return, both in this order, a vertical tab, a form feed,
or one of the line ends of Unicode.

Owns: the lines of a text, line ends included, and the line of a character.
Does not own: rows and columns in error messages, which end at line feeds alone.
-/

namespace PatternScript.Report

/-- The character ends a line. -/
def endsLine (c : Char) : Bool :=
  let code := c.toNat
  (0x0A ≤ code && code ≤ 0x0D) || code == 0x85 || code == 0x2028 || code == 0x2029

/-- Puts a character at the start of the first line. -/
def prepend (c : Char) : List (List Char) → List (List Char)
  | [] => [[c]]
  | line :: rest => (c :: line) :: rest

/-- The lines of a text, each with its line end. -/
def lines : List Char → List (List Char)
  | [] => []
  | '\r' :: '\n' :: rest => ['\r', '\n'] :: lines rest
  | c :: rest => if endsLine c then [c] :: lines rest else prepend c (lines rest)

/-- A character by its line: how many lines are before, the line, and its column. -/
structure Position where
  before : Nat
  line : List Char
  column : Nat
deriving Repr

/-- The position of a character offset, if the text is long enough, with `before` lines before the
first one given. -/
def positionIn? (before : Nat) : List (List Char) → (offset : Nat) → Option Position
  | [], _ => none
  | line :: rest, offset =>
      if offset < line.length then some ⟨before, line, offset⟩
      else positionIn? (before + 1) rest (offset - line.length)

/-- The position of a character offset in a text. -/
def position? (text : List Char) (offset : Nat) : Option Position :=
  positionIn? 0 (lines text) offset

end PatternScript.Report
