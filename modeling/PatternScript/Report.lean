import PatternScript.Report.Lines
import PatternScript.Text.Blank
import PatternScript.Text.Width
import PatternScript.Transpile.Outcome

/-!
Contract: an error with the line of the program it points at.

The report names the place, shows the line, and draws an arrow from the character to the label of
the error. The arrow is as wide as the character is on a terminal. A report may be in colour; the
text without the colours is the same.

Owns: the layout of a report and its colours.
Does not own: what is said in it.
-/

namespace PatternScript.Report

/-! ## Colours -/

/-- The part that a piece of a report plays, which decides its colour. -/
inductive Ink where
  /-- What the report is about. -/
  | accent
  /-- The frame around the program text. -/
  | frame
  /-- The frame beside arrows. -/
  | margin
  /-- Program text that the report is not about. -/
  | unmarked
deriving DecidableEq, Repr

namespace Ink

/-- The parameters of the terminal command that selects a colour. -/
def code : Ink → String
  | .accent => "31"
  | .frame => "38;5;246"
  | .margin => "38;5;240"
  | .unmarked => "38;5;249"

/-- A piece of text in its colour, if there are to be colours. -/
def paint (ink : Ink) (colored : Bool) (text : List Char) : List Char :=
  if colored then "\x1b[".toList ++ ink.code.toList ++ 'm' :: text ++ "\x1b[0m".toList else text

end Ink

/-! ## Columns -/

/-- The distance between tab stops. -/
def tabWidth : Nat := 4

/-- The cells of a character in a column. -/
def cells (column : Nat) (c : Char) : Nat :=
  if c = '\t' then tabWidth - column % tabWidth
  else if Text.isBlank c then 1
  else Text.width c

/-- A character of the program in a column, blanks as spaces. -/
def shownChar (colored : Bool) (ink : Ink) (column : Nat) (c : Char) : List Char :=
  if Text.isBlank c then
    (List.replicate (cells column c) (ink.paint colored [' '])).flatten
  else ink.paint colored [c]

/-- The line of the program from a column on, with one column marked. -/
def shownLine (colored : Bool) (marked : Nat) : (column : Nat) → List Char → List Char
  | _, [] => []
  | column, c :: rest =>
      shownChar colored (if column = marked then .accent else .unmarked) column c ++
        shownLine colored marked (column + 1) rest

/-- The cells of a column of a line; past its end columns have one cell. -/
def columnCells (text : List Char) (column : Nat) : Nat :=
  match text[column]? with
  | some c => cells column c
  | none => 1

/-- A row of an arrow in one column: `first` and then dashes in the marked column, and what comes
before and after it. -/
def arrowColumn (colored : Bool) (line : List Char) (marked : Nat) (first : Char)
    (after : List Char) (column : Nat) : List Char :=
  let count := columnCells line column
  let dash := Ink.accent.paint colored ['─']
  if column < marked then List.replicate count ' '
  else if column = marked then
    match count with
    | 0 => []
    | more + 1 => Ink.accent.paint colored [first] ++ (List.replicate more dash).flatten
  else (List.replicate count after).flatten

/-- How many columns an arrow reaches past the marked one. -/
def arrowReach : Nat := 2

/-- A row of an arrow. -/
def arrowRow (colored : Bool) (line : List Char) (marked : Nat) (first : Char)
    (after : List Char) : List Char :=
  (List.range (marked + arrowReach + 1)).flatMap (arrowColumn colored line marked first after)

/-! ## The report -/

/-- The excerpt of a program with an arrow to its marked character. -/
def excerptRows (colored : Bool) (name label : List Char) (position : Position) :
    List (List Char) :=
  let frame := fun text : String => Ink.frame.paint colored text.toList
  let line := Text.trimRight position.line
  let number := Nat.toDigits 10 (position.before + 1)
  let column := Nat.toDigits 10 (position.column + 1)
  let margin := List.replicate (number.length + 2) ' '
  let beside := ' ' :: Ink.margin.paint colored (List.replicate (number.length + 1) ' ' ++ ['│'])
  let dash := Ink.accent.paint colored ['─']
  [ margin ++ frame "╭" ++ frame "─" ++ frame "[" ++ name ++ ':' :: number ++ ':' :: column ++
      frame "]",
    margin ++ frame "│",
    ' ' :: Ink.frame.paint colored (number ++ " │".toList) ++ ' ' ::
      shownLine colored position.column 0 line,
    beside ++ ' ' :: arrowRow colored line position.column '┬' [' '],
    beside ++ ' ' :: arrowRow colored line position.column '╰' dash ++ ' ' :: label,
    Ink.frame.paint colored (List.replicate (number.length + 2) '─' ++ ['╯']) ]

/-- The character a report points at: that of the error, or the last one if the error is past the
end. -/
def target (text : List Char) (offset : Nat) : Nat :=
  min offset (text.length - 1)

/-- The report of an error in a program of a name. There is nothing to show of an empty program. -/
def render (name : String) (text : List Char) (error : TranspileError) (colored : Bool) : String :=
  let head := Ink.accent.paint colored "Error:".toList ++ ' ' :: error.message.toList
  let rows :=
    match error.place? with
    | none => []
    | some place =>
        match position? text (target text place.offset) with
        | some position => excerptRows colored name.toList error.label.toList position
        | none => []
  String.ofList ((head :: rows).flatMap fun row => row ++ ['\n'])

end PatternScript.Report
